import DocRef.Proofs.Grammar.Positions

/-!
Where the readers of references and of types agree. A letter with its colon gives a reference its kind
and moves what follows, and nothing else depends on it (`parse_letter`). Plain dotted names are what both
readers take, as the same tree; no other text is a reference and a type as well
(`parse_agrees_parseType`).
-/

namespace DocRef

/-! ### Letters -/

/-- What is read from a text that begins further on is the same, and a flaw is further on as well. -/
theorem run_tokensFrom_add {start : Reading} {distance : Nat}
    (hstart : start.move (· + distance) = start) (position : Nat) (text : Text) :
    (tokensFrom (position + distance) text).bind start.run =
      ((tokensFrom position text).bind start.run).mapError (Malformed.shift distance) := by
  rw [tokensFrom_shift]
  cases htokens : tokensFrom position text with
  | error malformed => rfl
  | ok tokens =>
    obtain ⟨init, last, rfl, -⟩ := tokensFrom_writable htokens
    have hrun := @Reading.run_move (· + distance) start (init ++ [⟨.endOfInput, last⟩])
      ⟨⟨.endOfInput, last⟩, by simp, rfl⟩
    rw [hstart] at hrun
    exact hrun

/-- A text without a letter and a colon at its front is read by all its tokens. -/
theorem parse_of_noLetter {text : Text}
    (h : ∀ first after, text.dropWhile isBlank ≠ first :: ':' :: after) :
    Reference.parse text =
      ((tokensFrom 0 text).bind (Reading.beforeSegment none).run).map (⟨none, ·⟩) := by
  have hblank : ∀ c ∈ text.takeWhile isBlank, isBlank c = true :=
    fun c hc => List.all_eq_true.mp List.all_takeWhile c hc
  have htokens := @tokensFrom_blank_append 0 (text.dropWhile isBlank) _ hblank
  rw [List.takeWhile_append_dropWhile, Nat.zero_add] at htokens
  rw [parse_of_splitKind (splitKind_none text h), htokens]

/-- A letter of a kind, with white space before it and a colon behind it, gives what follows its kind. If
that is no reference, the flaw is the same, and it is moved by the white space and two bytes. -/
theorem parse_letter {blank body : Text} (kind : SymbolKind) (hblank : ∀ c ∈ blank, isBlank c = true)
    (hbody : ∀ first after, body.dropWhile isBlank ≠ first :: ':' :: after) :
    match Reference.parse body with
    | .ok ⟨bodyKind, node⟩ => bodyKind = none ∧
        Reference.parse (blank ++ kind.letter :: ':' :: body) = .ok ⟨some kind, node⟩
    | .error ⟨position, flaw⟩ =>
        Reference.parse (blank ++ kind.letter :: ':' :: body) =
          .error ⟨position + (blank.byteLength + 2), flaw⟩ := by
  have hletter : kind.letter.utf8Size = 1 := by cases kind <;> rfl
  have hsplit : splitKind (blank ++ kind.letter :: ':' :: body) =
      .ok (some kind, 0 + (blank.byteLength + 2), body) := by
    have hsome := splitKind_some hblank kind body
    rw [kindPrefix, List.append_assoc, hletter] at hsome
    rwa [Nat.zero_add]
  rw [parse_of_noLetter hbody, parse_of_splitKind hsplit, run_tokensFrom_add rfl]
  cases (tokensFrom 0 body).bind (Reading.beforeSegment none).run with
  | ok node => exact ⟨rfl, rfl⟩
  | error malformed => rfl

/-- The parenthesis that is faulted in `A.B(C` is faulted six bytes further on behind a wide blank, a
letter and a colon. -/
theorem parse_letter_openGroup :
    Reference.parse "A.B(C".toList = .error ⟨3, .unterminatedGroup '('⟩ ∧
    Reference.parse "\u2003 M:A.B(C".toList = .error ⟨9, .unterminatedGroup '('⟩ := by
  have hbody : Reference.parse "A.B(C".toList = .error ⟨3, .unterminatedGroup '('⟩ := by
    decide +kernel
  have hblank : ∀ c ∈ "\u2003 ".toList, isBlank c = true := List.all_eq_true.mp (by decide +kernel)
  have hmoved := @parse_letter "\u2003 ".toList "A.B(C".toList .method hblank fun first after => by
    rw [show List.dropWhile isBlank "A.B(C".toList = "A.B(C".toList by decide +kernel]
    simp
  rw [hbody] at hmoved
  exact ⟨hbody, hmoved⟩

/-! ### Names -/

theorem Node.IsMember.isType : {node : Node} → node.IsMember → node.IsType
  | .root _, _ => trivial
  | .child _ _, h => ⟨IsMember.isType h, isScope_of_isSegment (IsMember.isSegment h)⟩

/-- Types with the same tokens are the same. -/
theorem Node.IsType.eq_of_tokens {node other : Node} (hnode : node.IsType) (hother : other.IsType)
    (h : node.tokens = other.tokens) : node = other := by
  have hleads := Reading.leads_type other hother []
  rw [← h] at hleads
  have hfinal := (Reading.leads_type node hnode []).unique hleads
  injection hfinal

/-- No type has the tokens of a member with a parameter list: within a type the parenthesis has no
place behind the member's name. -/
theorem Node.IsType.tokens_ne_method {node member : Node} (hnode : node.IsType)
    (hmember : member.IsMember) (parameters : List Node) (returns : Option Node) :
    node.tokens ≠ (Node.method member parameters returns).tokens := by
  intro h
  have hplaced : ∀ tokens : List Token, (tokens.map (PlacedToken.mk · 0)).map (·.token) = tokens := by
    intro tokens
    simp [Function.comp_def]
  have hrefused : (Reading.afterType [] member member.extent).step ⟨.openParen, 0⟩ = none := by
    cases member <;> rfl
  have hread := Reading.leads_type node hnode [] _ (hplaced node.tokens)
  have hname := Reading.leads_type member hmember.isType [] _ (hplaced member.tokens)
  rw [h, Node.tokens, List.append_assoc, List.map_append, Reading.steps_append, hname,
    Option.bind_some, List.cons_append, List.map_cons, Reading.steps, List.foldlM_cons, hrefused]
    at hread
  cases hread

/-- A text that is cut into tokens as a whole has no letter and colon at its front. -/
theorem Text.Tokenizes.noLetter {text : Text} {tokens : List Token} (h : text.Tokenizes tokens) :
    ∀ first after, text.dropWhile isBlank ≠ first :: ':' :: after := by
  obtain ⟨placed, hplaced, -⟩ := h
  exact fun first after hfront => not_tokensFrom_of_colon hfront placed hplaced

theorem Text.Tokenizes.unique {text : Text} {tokens others : List Token} (h : text.Tokenizes tokens)
    (hothers : text.Tokenizes others) : tokens = others := by
  obtain ⟨placed, hplaced, htokens⟩ := h
  obtain ⟨otherPlaced, hotherPlaced, hotherTokens⟩ := hothers
  rw [hplaced] at hotherPlaced
  cases hotherPlaced
  exact List.append_cancel_right (htokens.symm.trans hotherTokens)

/-- A text is a reference without a letter exactly by all its tokens. -/
theorem parse_none_eq_ok_iff (text : Text) (node : Node) :
    Reference.parse text = .ok ⟨none, node⟩ ↔ node.IsReference ∧ text.Tokenizes node.tokens := by
  rw [parse_eq_ok_iff]
  constructor
  · rintro ⟨blank, body, hblank, rfl, hreference, htokens⟩
    rw [kindPrefix, List.append_nil, Text.tokenizes_blank_append hblank]
    exact ⟨hreference, htokens⟩
  · rintro ⟨hreference, htokens⟩
    exact ⟨[], text, List.forall_mem_nil _, rfl, hreference, htokens⟩

/-- A dotted name is read as a reference without a letter exactly if it is read as a type, and as the
same tree. What is read in both ways is such a name. -/
theorem parse_agrees_parseType (text : Text) :
    (∀ name : Node, name.IsMember →
      (Reference.parse text = .ok ⟨none, name⟩ ↔ Node.parseType text = .ok name)) ∧
    ∀ (reference : Reference) (node : Node), Reference.parse text = .ok reference →
      Node.parseType text = .ok node → reference = ⟨none, node⟩ ∧ node.IsMember := by
  constructor
  · intro name hname
    rw [parse_none_eq_ok_iff, parseType_eq_ok_iff]
    exact and_congr_left' (iff_of_true hname.isReference hname.isType)
  · rintro ⟨kind, tree⟩ node hreference hnode
    obtain ⟨htype, htokens⟩ := (parseType_eq_ok_iff text node).mp hnode
    obtain rfl : kind = none := by
      rw [parse_of_noLetter htokens.noLetter] at hreference
      cases hread : (tokensFrom 0 text).bind (Reading.beforeSegment none).run with
      | ok other =>
        rw [hread] at hreference
        cases hreference
        rfl
      | error malformed =>
        rw [hread] at hreference
        cases hreference
    obtain ⟨hshape, htreeTokens⟩ := (parse_none_eq_ok_iff text tree).mp hreference
    have hsame : node.tokens = tree.tokens := htokens.unique htreeTokens
    cases tree with
    | method member parameters returns =>
      exact absurd hsame (htype.tokens_ne_method hshape.1 parameters returns)
    | _ =>
      obtain rfl := htype.eq_of_tokens (Node.IsMember.isType hshape) hsame
      exact ⟨rfl, hshape⟩

/-- The name `A.B` is read alike by both, with white space between its tokens too. -/
theorem parse_agrees_parseType_spaced :
    Reference.parse "A .B".toList = .ok ⟨none, .child (.root ['A']) ['B']⟩ ∧
    Node.parseType "A .B".toList = .ok (.child (.root ['A']) ['B']) ∧
    (Node.child (.root ['A']) ['B']).IsMember := by
  have hreference : Reference.parse "A .B".toList = .ok ⟨none, .child (.root ['A']) ['B']⟩ := by
    decide +kernel
  have hagrees := parse_agrees_parseType "A .B".toList
  have htype := (hagrees.1 (.child (.root ['A']) ['B']) trivial).mp hreference
  exact ⟨hreference, htype, (hagrees.2 _ _ hreference htype).2⟩

end DocRef

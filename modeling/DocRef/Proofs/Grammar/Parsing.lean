import DocRef.Proofs.Grammar.Reading
import DocRef.Proofs.Token.Spelling

/-!
Which texts are references and types, and which trees they are read as. The tokens of the text, after
white space and a letter with a colon, decide it: `parse_eq_ok_iff` and `parseType_eq_ok_iff` say so
in terms of trees, and `parse_iff_derivation` in terms of the grammar. A letter with a colon is never
part of what follows it, since no token begins with a colon.
-/

namespace DocRef

/-! ### Letters and colons -/

/-- A token before a colon ends there. -/
theorem Lexeme.rest_of_colon {first : Char} {after : Text} {lexeme : Lexeme}
    (h : read first (':' :: after) = .ok lexeme) : lexeme.rest = ':' :: after := by
  have hstops : Text.Stops (':' :: after) := Text.stops_cons (by decide) (by decide)
  unfold read at h
  split at h
  · next hfirst =>
    have hdigits : Text.leadingDigits (':' :: after) = [] :=
      (Text.takeWhile_of_head? hstops.not_isDigit).1
    simp only [hfirst, genericParam, ticks_cons (show ':' ≠ tick by decide), hdigits, if_true] at h
    cases h
  · split at h
    · cases h
    · split at h
      · have hname : name first (':' :: after) = ⟨.name [first], [first], ':' :: after⟩ :=
          @name_append first [] [] (':' :: after) (by simp) (.inl rfl) hstops
        rw [hname] at h
        cases h
        rfl
      · split at h
        · cases h
          rfl
        · cases h

/-- No text with a colon in the second place, white space aside, can be cut into tokens. -/
theorem not_tokensFrom_of_colon {position : Nat} {text after : Text} {first : Char}
    (h : text.dropWhile isBlank = first :: ':' :: after) (tokens : List PlacedToken) :
    tokensFrom position text ≠ .ok tokens := by
  cases hread : Lexeme.read first (':' :: after) with
  | error flaw =>
    rw [tokensFrom_of_flaw h hread]
    exact nofun
  | ok lexeme =>
    have hcolon : Lexeme.read ':' after = .error (.unexpectedCharacter ':') := rfl
    have hfront : (':' :: after).dropWhile isBlank = ':' :: after :=
      List.dropWhile_cons_of_neg (by decide)
    rw [tokensFrom_of_lexeme h hread, Lexeme.rest_of_colon hread, tokensFrom_of_flaw hfront hcolon]
    exact nofun

theorem SymbolKind.letter_of_ofLetter? {letter : Char} {kind : SymbolKind}
    (h : ofLetter? letter = some kind) : letter = kind.letter := by
  unfold ofLetter? at h
  split at h <;> first | (cases h; rfl) | cases h

/-- How a reference begins that demands a kind. -/
def kindPrefix : Option SymbolKind → Text
  | none => []
  | some kind => [kind.letter, ':']

theorem splitKind_some {blank : Text} (h : ∀ c ∈ blank, isBlank c = true) (kind : SymbolKind)
    (body : Text) :
    splitKind (blank ++ kindPrefix (some kind) ++ body) =
      .ok (some kind, blank.byteLength + kind.letter.utf8Size + 1, body) := by
  have hletter : ∀ c ∈ (kindPrefix (some kind) ++ body).head?, isBlank c = false := by
    rintro c hc
    cases hc
    cases kind <;> decide
  obtain ⟨htake, hdrop⟩ := Text.takeWhile_append_of_stop h hletter
  rw [List.append_assoc, splitKind, htake, hdrop]
  simp only [kindPrefix, List.cons_append, List.nil_append, kind.ofLetter?_letter]

/-- Without a letter and a colon, only white space is split off. -/
theorem splitKind_none (text : Text)
    (h : ∀ first after, text.dropWhile isBlank ≠ first :: ':' :: after) :
    splitKind text =
      .ok (none, Text.byteLength (text.takeWhile isBlank), text.dropWhile isBlank) := by
  unfold splitKind
  split
  · next hfront => exact absurd hfront (h _ _)
  · rfl

theorem eq_append_of_splitKind {text body : Text} {kind : Option SymbolKind} {start : Nat}
    (h : splitKind text = .ok (kind, start, body)) :
    text = text.takeWhile isBlank ++ kindPrefix kind ++ body := by
  have happend : text.takeWhile isBlank ++ text.dropWhile isBlank = text :=
    List.takeWhile_append_dropWhile
  unfold splitKind at h
  split at h
  · next hfront =>
    split at h
    · next hkind =>
      cases h
      rw [hfront, SymbolKind.letter_of_ofLetter? hkind] at happend
      simpa [kindPrefix] using happend.symm
    · cases h
  · cases h
    simp [kindPrefix]

/-! ### What is read -/

theorem Text.tokenizes_blank_append {blank text : Text} {tokens : List Token}
    (h : ∀ c ∈ blank, isBlank c = true) :
    (blank ++ text).Tokenizes tokens ↔ text.Tokenizes tokens := by
  rw [tokenizes_iff 0, tokensFrom_blank_append h, ← tokenizes_iff]

theorem run_reference_eq_ok_iff (position : Nat) (body : Text) (node : Node) :
    (tokensFrom position body).bind (Reading.beforeSegment none).run = .ok node ↔
      node.IsReference ∧ body.Tokenizes node.tokens := by
  rw [Text.tokenizes_iff position]
  cases htokens : tokensFrom position body with
  | error malformed => simp [Except.bind]
  | ok tokens =>
    obtain ⟨init, last, rfl, hwritable⟩ := tokensFrom_writable htokens
    rw [Except.bind, Reading.run_reference_iff last]
    · simp
    · rintro placed hplaced hend
      exact absurd (hwritable placed hplaced) (by simp [hend, Token.Writable])

theorem parseType_eq_ok_iff (text : Text) (node : Node) :
    Node.parseType text = .ok node ↔ node.IsType ∧ text.Tokenizes node.tokens := by
  change (tokenize text).bind (Reading.beforeType []).run = .ok node ↔ _
  rw [Text.Tokenizes]
  cases htokens : tokenize text with
  | error malformed => simp [Except.bind]
  | ok tokens =>
    obtain ⟨init, last, rfl, hwritable⟩ := tokensFrom_writable htokens
    rw [Except.bind, Reading.run_type_iff last]
    · simp
    · rintro placed hplaced hend
      exact absurd (hwritable placed hplaced) (by simp [hend, Token.Writable])

/-- Reading a reference is splitting off its kind and reading the rest. -/
theorem parse_of_splitKind {text body : Text} {kind : Option SymbolKind} {start : Nat}
    (h : splitKind text = .ok (kind, start, body)) :
    Reference.parse text =
      ((tokensFrom start body).bind (Reading.beforeSegment none).run).map (⟨kind, ·⟩) := by
  rw [Reference.parse, h]
  cases htokens : tokensFrom start body with
  | error malformed => simp [htokens, Except.bind, Except.map, bind]
  | ok tokens =>
    cases hrun : (Reading.beforeSegment none).run tokens <;>
      simp [htokens, hrun, Except.bind, Except.map, bind, pure, Except.pure]

/-- A text is read as a reference by the tokens of what stands after its kind. -/
theorem parse_eq_ok_iff (text : Text) (kind : Option SymbolKind) (node : Node) :
    Reference.parse text = .ok ⟨kind, node⟩ ↔ ∃ blank body, (∀ c ∈ blank, isBlank c = true) ∧
      text = blank ++ kindPrefix kind ++ body ∧ node.IsReference ∧ body.Tokenizes node.tokens := by
  constructor
  · intro h
    cases hsplit : splitKind text with
    | error malformed =>
      rw [Reference.parse, hsplit] at h
      cases h
    | ok split =>
      obtain ⟨kind', start, body⟩ := split
      rw [parse_of_splitKind hsplit] at h
      cases hread : (tokensFrom start body).bind (Reading.beforeSegment none).run with
      | error malformed =>
        rw [hread] at h
        cases h
      | ok node' =>
        rw [hread] at h
        cases h
        refine ⟨text.takeWhile isBlank, body, ?_, eq_append_of_splitKind hsplit, ?_⟩
        · exact fun c hc => List.all_eq_true.mp List.all_takeWhile c hc
        · exact (run_reference_eq_ok_iff start body _).mp hread
  · rintro ⟨blank, body, hblank, rfl, hread⟩
    cases kind with
    | some kind =>
      rw [parse_of_splitKind (splitKind_some hblank kind body),
        (run_reference_eq_ok_iff _ body node).mpr hread]
      rfl
    | none =>
      have htext : blank ++ kindPrefix none ++ body = blank ++ body := by simp [kindPrefix]
      have hdrop : (blank ++ body).dropWhile isBlank = body.dropWhile isBlank :=
        List.dropWhile_append_of_pos hblank
      obtain ⟨tokens, htokens, -⟩ := hread.2
      have hsplit := splitKind_none (blank ++ body) fun first after hfront =>
        not_tokensFrom_of_colon (hdrop ▸ hfront) tokens htokens
      have hbody : Text.Tokenizes (body.takeWhile isBlank ++ body.dropWhile isBlank) node.tokens := by
        rw [List.takeWhile_append_dropWhile]
        exact hread.2
      rw [Text.tokenizes_blank_append fun c hc => List.all_eq_true.mp List.all_takeWhile c hc] at hbody
      rw [htext, parse_of_splitKind hsplit, hdrop,
        (run_reference_eq_ok_iff _ _ node).mpr ⟨hread.1, hbody⟩]
      rfl

/-! ### What is read, by the grammar -/

/-- A text is a reference if and only if it is white space, the letter of a kind with a colon or
nothing, and a body whose tokens the grammar derives; it is read as the tree of that derivation.
A text is a type if and only if its tokens derive from a type. No tokens have two derivations. -/
theorem parse_iff_derivation :
    (∀ (text : Text) (kind : Option SymbolKind) (node : Node),
      Reference.parse text = .ok ⟨kind, node⟩ ↔
        ∃ (blank body : Text) (reference : ReferenceDerivation),
          (∀ c ∈ blank, isBlank c = true) ∧ text = blank ++ kindPrefix kind ++ body ∧
            body.Tokenizes reference.tokens ∧ reference.node = node) ∧
    (∀ (text : Text) (node : Node),
      Node.parseType text = .ok node ↔
        ∃ type : TypeDerivation, text.Tokenizes type.tokens ∧ type.node = node) ∧
    Function.Injective ReferenceDerivation.tokens ∧ Function.Injective TypeDerivation.tokens := by
  refine ⟨?_, ?_, ReferenceDerivation.tokens_injective, TypeDerivation.tokens_injective⟩
  · intro text kind node
    rw [parse_eq_ok_iff]
    constructor
    · rintro ⟨blank, body, hblank, htext, hreference, htokens⟩
      have hnode := Node.node_deriveReference hreference
      rw [← hnode, ReferenceDerivation.node_tokens] at htokens
      exact ⟨blank, body, node.deriveReference, hblank, htext, htokens, hnode⟩
    · rintro ⟨blank, body, reference, hblank, htext, htokens, rfl⟩
      rw [← ReferenceDerivation.node_tokens] at htokens
      exact ⟨blank, body, hblank, htext, reference.node_isReference, htokens⟩
  · intro text node
    rw [parseType_eq_ok_iff]
    constructor
    · rintro ⟨htype, htokens⟩
      have hnode := node.node_derive htype
      rw [← hnode, TypeDerivation.node_tokens] at htokens
      exact ⟨node.derive, htokens, hnode⟩
    · rintro ⟨type, htokens, rfl⟩
      rw [← TypeDerivation.node_tokens] at htokens
      exact ⟨type.node_isType, htokens⟩

end DocRef

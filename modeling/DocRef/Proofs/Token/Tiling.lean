import DocRef.Proofs.Token.Spelling

/-!
The tokens of a text tile it. A text is cut into tokens if and only if it is white space and spellings
in turn, each spelling being that of the token which begins there, and none of them cut short
(`tokensFrom_eq_ok_iff`). So the pieces make up the whole text, positions grow from token to token, and
the only `endOfInput` stands behind the last byte (`tokenizeFrom_eq_ok_iff`).
-/

namespace DocRef

namespace Text

/-- Whether a text is a run of digits. -/
def IsNumeral (text : Text) : Prop :=
  text ≠ [] ∧ ∀ c ∈ text, isDigit c = true

/-- Whether a text does not go on with a run of digits in front of it. -/
def StopsDigits (text : Text) : Prop :=
  ∀ c ∈ text.head?, isDigit c = false

/-- Whether a text goes on with an identifier in front of it neither by a character nor by a marker. -/
structure StopsName (text : Text) : Prop where
  identifier : ∀ c ∈ text.head?, inIdentifier c = false
  typeMarker : ∀ c, isDigit c = true → ¬ [tick, c] <+: text
  methodMarker : ∀ c, isDigit c = true → ¬ [tick, tick, c] <+: text

end Text

/-- The tokens that are written with a single character of punctuation. -/
def Token.marks : List Token :=
  [.byRefMark, .closeBrace, .closeParen, .comma, .dot, .openBrace, .openParen, .pointerMark, .tilde]

/-- Whether a spelling is that of its token and is not cut short by what follows. A name is an
identifier with at most one marker; a bracket has a dimension more than commas, as far as ranks are told
apart. -/
inductive Lexeme.Exact : Lexeme → Prop
  | name {stem rest : Text} (hstem : stem.IsIdentifier) (hrest : rest.StopsName) :
    Exact ⟨.name stem, stem, rest⟩
  | markedName {stem marks digits rest : Text} (hstem : stem.IsIdentifier)
      (hmarks : marks = [tick] ∨ marks = [tick, tick]) (hdigits : digits.IsNumeral)
      (hrest : rest.StopsDigits) :
    Exact ⟨.name (stem ++ marks ++ digits), stem ++ marks ++ digits, rest⟩
  | typeParam {digits rest : Text} (hdigits : digits.IsNumeral) (hmax : digits.number ≤ maxNumber)
      (hrest : rest.StopsDigits) :
    Exact ⟨.typeParam digits.number, tick :: digits, rest⟩
  | methodParam {digits rest : Text} (hdigits : digits.IsNumeral) (hmax : digits.number ≤ maxNumber)
      (hrest : rest.StopsDigits) :
    Exact ⟨.methodParam digits.number, tick :: tick :: digits, rest⟩
  | emptyBracket {rest : Text} : Exact ⟨.arraySuffix 1, ['[', ']'], rest⟩
  | bracket {commas : Nat} {rest : Text} :
    Exact ⟨.arraySuffix (min (commas + 1) maxNumber),
      '[' :: '0' :: ':' :: (List.replicate commas [',', '0', ':']).flatten ++ [']'], rest⟩
  | mark {token : Token} {rest : Text} (htoken : token ∈ Token.marks) :
    Exact ⟨token, token.spelling, rest⟩

/-- Whether a text that begins at a byte position is white space and the spellings of tokens in turn.
Each token is placed where its spelling begins, and `endOfInput` behind the white space at the end. -/
inductive Tiled : Nat → Text → List PlacedToken → Prop
  | finish {position : Nat} {blank : Text} (hblank : ∀ c ∈ blank, isBlank c = true) :
    Tiled position blank [⟨.endOfInput, position + blank.byteLength⟩]
  | token {position : Nat} {blank : Text} {lexeme : Lexeme} {tokens : List PlacedToken}
      (hblank : ∀ c ∈ blank, isBlank c = true) (hexact : lexeme.Exact)
      (hrest : Tiled (position + blank.byteLength + lexeme.spelling.byteLength) lexeme.rest tokens) :
    Tiled position (blank ++ lexeme.spelling ++ lexeme.rest)
      (⟨lexeme.token, position + blank.byteLength⟩ :: tokens)

/-- Whether a token stands at the start of a text: by its spelling, or at the end of the input. -/
inductive Token.StandsAt : Token → Text → Prop
  | endOfInput : StandsAt .endOfInput []
  | spelled {lexeme : Lexeme} (hexact : lexeme.Exact) :
    StandsAt lexeme.token (lexeme.spelling ++ lexeme.rest)

/-! ### Single tokens -/

namespace Lexeme

open Text

theorem ticks_append_ticks (text : Text) : (ticks text).1 ++ (ticks text).2 = text := by
  unfold ticks
  split <;> rfl

/-- Digits behind one tick or two are part of a marker. -/
theorem marker_ne_nil {marks text : Text} {c : Char} (hmarks : marks = [tick] ∨ marks = [tick, tick])
    (hc : isDigit c = true) (h : marks ++ [c] <+: text) : (marker text).1 ≠ [] := by
  obtain ⟨rest, rfl⟩ := h
  have hdigits : (c :: rest).takeWhile isDigit ≠ [] := by
    rw [List.takeWhile_cons_of_pos hc]
    exact List.cons_ne_nil _ _
  have hsplit : marks ++ [c] ++ rest =
      marks ++ ((c :: rest).takeWhile isDigit ++ (c :: rest).dropWhile isDigit) := by
    rw [List.takeWhile_append_dropWhile, List.append_assoc, List.singleton_append]
  rw [hsplit, marker_numeral hmarks hdigits (fun d hd => List.all_eq_true.mp List.all_takeWhile d hd)
    (head?_dropWhile _)]
  exact List.append_ne_nil_of_right_ne_nil marks hdigits

/-- There is no marker at the start of a text exactly if there is no digit behind one tick or two. -/
theorem marker_eq_nil_iff (text : Text) : marker text = ([], text) ↔
    ∀ c, isDigit c = true → ¬ [tick, c] <+: text ∧ ¬ [tick, tick, c] <+: text := by
  constructor
  · intro h c hc
    have hnone : (marker text).1 = [] := by rw [h]
    exact ⟨fun hone => marker_ne_nil (.inl rfl) hc hone hnone,
      fun htwo => marker_ne_nil (.inr rfl) hc htwo hnone⟩
  · intro h
    have hdigits : ∀ marks, (ticks text).1 = marks →
        (∀ c, isDigit c = true → ¬ marks ++ [c] <+: text) → (ticks text).2.leadingDigits = [] := by
      rintro marks rfl hmarks
      refine (takeWhile_of_head? fun c hc => ?_).1
      obtain ⟨after, hafter⟩ := List.head?_eq_some_iff.mp hc
      rw [← Bool.not_eq_true]
      intro hdigit
      refine hmarks c hdigit ⟨after, ?_⟩
      rw [List.append_assoc, List.singleton_append, ← hafter, ticks_append_ticks]
    have hempty : (ticks text).1 = [] ∨ (ticks text).2.leadingDigits = [] := by
      rcases ticks_cases text with hnone | hone | htwo
      · exact .inl hnone
      · exact .inr (hdigits [tick] hone fun c hc => (h c hc).1)
      · exact .inr (hdigits [tick, tick] htwo fun c hc => (h c hc).2)
    simp only [marker]
    exact if_pos hempty

/-- A name with nothing behind it that could be its marker. -/
theorem stopsName_iff (text : Text) : text.StopsName ↔
    (∀ c ∈ text.head?, inIdentifier c = false) ∧ marker text = ([], text) := by
  rw [marker_eq_nil_iff]
  constructor
  · rintro ⟨hidentifier, htype, hmethod⟩
    exact ⟨hidentifier, fun c hc => ⟨htype c hc, hmethod c hc⟩⟩
  · rintro ⟨hidentifier, hmarker⟩
    exact ⟨hidentifier, fun c hc => (hmarker c hc).1, fun c hc => (hmarker c hc).2⟩

/-- A marker that is read is ticks and all digits behind them. -/
theorem marker_cases (text : Text) : marker text = ([], text) ∨
    ∃ marks digits rest : Text, (marks = [tick] ∨ marks = [tick, tick]) ∧ digits.IsNumeral ∧
      rest.StopsDigits ∧ marker text = (marks ++ digits, rest) ∧ text = marks ++ digits ++ rest := by
  simp only [marker]
  split
  · exact .inl rfl
  · next h =>
    rw [not_or] at h
    refine .inr ⟨(ticks text).1, (ticks text).2.leadingDigits, (ticks text).2.dropWhile isDigit,
      (ticks_cases text).resolve_left h.1, ⟨h.2, fun c => isDigit_of_mem_leadingDigits⟩,
      head?_dropWhile _, rfl, ?_⟩
    rw [List.append_assoc, leadingDigits, List.takeWhile_append_dropWhile, ticks_append_ticks]

/-- The dimensions that are read are all that stand at the start of the text. -/
theorem dimensions_eq (text : Text) :
    (dimensions text).2.1 = (List.replicate (dimensions text).1 [',', '0', ':']).flatten ∧
      (dimensions text).2.1 ++ (dimensions text).2.2 = text := by
  fun_induction dimensions text with
  | case1 text count spelling rest h ih =>
    rw [h] at ih
    obtain ⟨hspelling, htext⟩ := ih
    simp only at hspelling htext ⊢
    rw [List.replicate_succ, List.flatten_cons, ← hspelling, ← htext]
    exact ⟨rfl, rfl⟩
  | case2 text => exact ⟨rfl, rfl⟩

theorem exact_arraySuffix {text : Text} {lexeme : Lexeme} (h : arraySuffix text = some lexeme) :
    lexeme.Exact ∧ '[' :: text = lexeme.spelling ++ lexeme.rest := by
  unfold arraySuffix at h
  split at h
  · cases h
    exact ⟨.emptyBracket, rfl⟩
  · next text =>
    split at h
    · next count spelling rest hdimensions =>
      obtain ⟨hspelling, htext⟩ := dimensions_eq text
      rw [hdimensions] at hspelling htext
      cases h
      simp only at hspelling htext
      subst hspelling
      refine ⟨.bracket, ?_⟩
      rw [← htext]
      simp
    · cases h
  · cases h

theorem ticks_tick_cases (text : Text) :
    (ticks (tick :: text)).1 = [tick] ∨ (ticks (tick :: text)).1 = [tick, tick] := by
  unfold ticks
  split
  · exact .inr rfl
  · exact .inl rfl
  · next hone => exact absurd rfl (hone text)

theorem exact_genericParam {text : Text} {lexeme : Lexeme}
    (h : genericParam (tick :: text) = .ok lexeme) :
    lexeme.Exact ∧ tick :: text = lexeme.spelling ++ lexeme.rest := by
  have htext := ticks_append_ticks (tick :: text)
  have hmarks := ticks_tick_cases text
  simp only [genericParam] at h
  generalize ticks (tick :: text) = taken at h htext hmarks
  obtain ⟨marks, after⟩ := taken
  simp only at h htext hmarks
  split at h
  · cases h
  · next hdigits =>
    split at h
    · cases h
    · next hmax =>
      cases h
      have hnumeral : IsNumeral after.leadingDigits :=
        ⟨hdigits, fun c => isDigit_of_mem_leadingDigits⟩
      refine ⟨?_, ?_⟩
      · rcases hmarks with rfl | rfl
        · exact .typeParam hnumeral (Nat.not_lt.mp hmax) (head?_dropWhile _)
        · exact .methodParam hnumeral (Nat.not_lt.mp hmax) (head?_dropWhile _)
      · rw [List.append_assoc, leadingDigits, List.takeWhile_append_dropWhile, htext]

theorem exact_name {first : Char} (hfirst : startsIdentifier first = true) (text : Text) :
    (name first text).Exact ∧
      first :: text = (name first text).spelling ++ (name first text).rest := by
  have hstem : IsIdentifier (first :: text.takeWhile inIdentifier) :=
    ⟨first, _, rfl, hfirst, fun c hc => List.all_eq_true.mp List.all_takeWhile c hc⟩
  have htext : text.takeWhile inIdentifier ++ text.dropWhile inIdentifier = text :=
    List.takeWhile_append_dropWhile
  rcases marker_cases (text.dropWhile inIdentifier) with
    hnone | ⟨marks, digits, rest, hmarks, hdigits, hrest, hmarker, hsplit⟩
  · have hname : name first text = ⟨.name (first :: text.takeWhile inIdentifier),
        first :: text.takeWhile inIdentifier, text.dropWhile inIdentifier⟩ := by
      simp [name, hnone]
    rw [hname]
    refine ⟨.name hstem ((stopsName_iff _).mpr ⟨head?_dropWhile text, hnone⟩), ?_⟩
    rw [List.cons_append, htext]
  · have hname : name first text = ⟨.name (first :: text.takeWhile inIdentifier ++ marks ++ digits),
        first :: text.takeWhile inIdentifier ++ marks ++ digits, rest⟩ := by
      simp [name, hmarker]
    rw [hname]
    refine ⟨.markedName hstem hmarks hdigits hrest, ?_⟩
    simp only [List.cons_append, List.append_assoc] at hsplit ⊢
    rw [← hsplit, htext]

theorem exact_punctuation {c : Char} {token : Token} (h : punctuation c = some token) (text : Text) :
    Exact ⟨token, [c], text⟩ := by
  have hmark : token ∈ Token.marks ∧ token.spelling = [c] := by
    unfold punctuation at h
    split at h <;> first | (cases h; decide) | cases h
  rw [← hmark.2]
  exact .mark hmark.1

/-- What is read off a text is exact, and its spelling and what follows are the text. -/
theorem exact_of_read {first : Char} {after : Text} {lexeme : Lexeme}
    (h : read first after = .ok lexeme) :
    lexeme.Exact ∧ first :: after = lexeme.spelling ++ lexeme.rest := by
  unfold read at h
  split at h
  · next hfirst =>
    subst hfirst
    exact exact_genericParam h
  · split at h
    · next hfirst =>
      subst hfirst
      split at h
      · next harray =>
        cases h
        exact exact_arraySuffix harray
      · cases h
    · split at h
      · next hstarts =>
        cases h
        exact exact_name hstarts after
      · split at h
        · next hpunctuation =>
          cases h
          exact ⟨exact_punctuation hpunctuation after, rfl⟩
        · cases h

/-- A token that is spelled exactly is read off its spelling and what follows. -/
theorem Exact.read {lexeme : Lexeme} (h : lexeme.Exact) :
    ∃ first after, lexeme.spelling ++ lexeme.rest = first :: after ∧ isBlank first = false ∧
      Lexeme.read first after = .ok lexeme := by
  have hname : ∀ {stem tail : Text}, stem.IsIdentifier → (∀ c ∈ tail.head?, inIdentifier c = false) →
      ∃ first after, stem ++ tail = first :: after ∧ isBlank first = false ∧
        Lexeme.read first after =
          .ok ⟨.name (stem ++ (marker tail).1), stem ++ (marker tail).1, (marker tail).2⟩ := by
    rintro _ tail ⟨first, run, rfl, hfirst, hrun⟩ htail
    have hne : first ≠ tick := ne_tick_of_inIdentifier (inIdentifier_of_startsIdentifier hfirst)
    have hbracket : first ≠ '[' := by
      rintro rfl
      exact absurd hfirst (by decide)
    refine ⟨first, run ++ tail, rfl, not_isBlank_of_startsIdentifier hfirst, ?_⟩
    rw [Lexeme.read, if_neg hne, if_neg hbracket, if_pos hfirst, name_run hrun htail]
  cases h with
  | @name stem rest hstem hrest =>
    obtain ⟨hidentifier, hmarker⟩ := (stopsName_iff rest).mp hrest
    have hread := hname hstem hidentifier
    rw [hmarker, List.append_nil] at hread
    exact hread
  | @markedName stem marks digits rest hstem hmarks hdigits hrest =>
    have hstop : ∀ c ∈ (marks ++ (digits ++ rest)).head?, inIdentifier c = false := by
      rcases hmarks with rfl | rfl <;> exact fun c hc => by cases hc; exact not_inIdentifier_tick
    have hread := hname hstem hstop
    rw [marker_numeral hmarks hdigits.1 hdigits.2 hrest] at hread
    simpa only [List.append_assoc] using hread
  | typeParam hdigits hmax hrest =>
    have hparam := genericParam_numeral (.inl rfl) hdigits.1 hdigits.2 hmax hrest
    exact ⟨tick, _, rfl, by decide, (if_pos rfl).trans hparam⟩
  | methodParam hdigits hmax hrest =>
    have hparam := genericParam_numeral (.inr rfl) hdigits.1 hdigits.2 hmax hrest
    exact ⟨tick, _, rfl, by decide, (if_pos rfl).trans hparam⟩
  | @emptyBracket rest => exact ⟨'[', ']' :: rest, rfl, by decide, rfl⟩
  | @bracket commas rest =>
    refine ⟨'[', '0' :: ':' :: ((List.replicate commas [',', '0', ':']).flatten ++ ']' :: rest),
      by simp, by decide, ?_⟩
    rw [Lexeme.read, if_neg (by decide), if_pos rfl]
    simp only [arraySuffix, dimensions_append]
  | @mark token rest htoken =>
    simp only [Token.marks, List.mem_cons, List.not_mem_nil, or_false] at htoken
    rcases htoken with rfl | rfl | rfl | rfl | rfl | rfl | rfl | rfl | rfl <;>
      exact ⟨_, rest, rfl, by decide, rfl⟩

/-- No token is spelled with nothing. -/
theorem Exact.exists_spelling_cons {lexeme : Lexeme} (h : lexeme.Exact) :
    ∃ first run, lexeme.spelling = first :: run := by
  cases h with
  | name hstem hrest =>
    obtain ⟨first, run, rfl, -⟩ := hstem
    exact ⟨first, run, rfl⟩
  | markedName hstem hmarks hdigits hrest =>
    obtain ⟨first, run, rfl, -⟩ := hstem
    exact ⟨first, _, rfl⟩
  | mark htoken =>
    simp only [Token.marks, List.mem_cons, List.not_mem_nil, or_false] at htoken
    rcases htoken with rfl | rfl | rfl | rfl | rfl | rfl | rfl | rfl | rfl <;> exact ⟨_, [], rfl⟩
  | _ => exact ⟨_, _, rfl⟩

end Lexeme

/-! ### Whole texts -/

variable {position : Nat} {text : Text} {tokens : List PlacedToken}

theorem tiled_of_tokensFrom (h : tokensFrom position text = .ok tokens) :
    Tiled position text tokens := by
  induction hlength : text.length using Nat.strongRecOn generalizing position text tokens with
  | ind length ih =>
    have hblank : ∀ c ∈ text.takeWhile isBlank, isBlank c = true :=
      fun c hc => List.all_eq_true.mp List.all_takeWhile c hc
    have htext : text.takeWhile isBlank ++ text.dropWhile isBlank = text :=
      List.takeWhile_append_dropWhile
    cases hfront : text.dropWhile isBlank with
    | nil =>
      rw [tokensFrom_of_blank hfront] at h
      rw [hfront, List.append_nil] at htext
      cases h
      rw [htext] at hblank ⊢
      exact .finish hblank
    | cons first after =>
      cases hread : Lexeme.read first after with
      | error flaw =>
        rw [tokensFrom_of_flaw hfront hread] at h
        cases h
      | ok lexeme =>
        obtain ⟨hexact, hspelling⟩ := Lexeme.exact_of_read hread
        have hshorter := hlength ▸ rest_length_lt hfront hread
        rw [tokensFrom_of_lexeme hfront hread] at h
        cases hrest : tokensFrom (position + Text.byteLength (text.takeWhile isBlank) +
            lexeme.spelling.byteLength) lexeme.rest with
        | error malformed =>
          rw [hrest] at h
          cases h
        | ok rest =>
          rw [hrest] at h
          cases h
          have htiled := Tiled.token hblank hexact (ih _ hshorter hrest rfl)
          rwa [List.append_assoc, ← hspelling, ← hfront, htext] at htiled

theorem Tiled.tokensFrom (h : Tiled position text tokens) :
    tokensFrom position text = .ok tokens := by
  induction h with
  | @finish position blank hblank =>
    rw [← List.append_nil blank, tokensFrom_blank_append hblank, tokensFrom_of_blank rfl,
      List.append_nil]
    rfl
  | @token position blank lexeme tokens hblank hexact hrest ih =>
    obtain ⟨first, after, happend, hfirst, hread⟩ := hexact.read
    have hfront : (first :: after).dropWhile isBlank = first :: after :=
      List.dropWhile_cons_of_neg (by simp [hfirst])
    have htake : (first :: after).takeWhile isBlank = [] :=
      List.takeWhile_cons_of_neg (by simp [hfirst])
    rw [List.append_assoc, tokensFrom_blank_append hblank, happend,
      tokensFrom_of_lexeme hfront hread, htake]
    show (DocRef.tokensFrom (position + blank.byteLength + lexeme.spelling.byteLength)
      lexeme.rest).map _ = _
    rw [ih]
    rfl

/-- A text is cut into tokens if and only if they tile it. -/
theorem tokensFrom_eq_ok_iff : tokensFrom position text = .ok tokens ↔ Tiled position text tokens :=
  ⟨tiled_of_tokensFrom, Tiled.tokensFrom⟩

namespace Tiled

/-- The only `endOfInput` stands behind the last byte. -/
theorem exists_init (h : Tiled position text tokens) :
    ∃ init, tokens = init ++ [⟨.endOfInput, position + text.byteLength⟩] ∧
      ∀ placed ∈ init, placed.token ≠ .endOfInput := by
  induction h with
  | finish hblank => exact ⟨[], rfl, List.forall_mem_nil _⟩
  | @token position blank lexeme tokens hblank hexact hrest ih =>
    obtain ⟨init, rfl, hinit⟩ := ih
    refine ⟨⟨lexeme.token, position + blank.byteLength⟩ :: init, ?_,
      List.forall_mem_cons.mpr ⟨?_, hinit⟩⟩
    · rw [Text.byteLength_append, Text.byteLength_append, List.cons_append]
      simp only [Nat.add_assoc]
    · cases hexact with
      | mark htoken =>
        rintro rfl
        exact absurd htoken (by decide)
      | _ => exact nofun

theorem le_position (h : Tiled position text tokens) :
    ∀ placed ∈ tokens, position ≤ placed.position := by
  induction h with
  | finish hblank => exact List.forall_mem_singleton.mpr (Nat.le_add_right _ _)
  | token hblank hexact hrest ih =>
    refine List.forall_mem_cons.mpr ⟨Nat.le_add_right _ _, fun placed hplaced => ?_⟩
    have hlater := ih placed hplaced
    omega

/-- Each token stands behind the one before it. -/
theorem pairwise_position (h : Tiled position text tokens) :
    tokens.Pairwise fun placed other => placed.position < other.position := by
  induction h with
  | finish hblank => exact List.pairwise_singleton _ _
  | @token position blank lexeme tokens hblank hexact hrest ih =>
    refine List.pairwise_cons.mpr ⟨fun other hother => ?_, ih⟩
    obtain ⟨first, run, hspelling⟩ := hexact.exists_spelling_cons
    have hpositive := hspelling ▸ Text.byteLength_cons_pos first run
    have hlater := hrest.le_position other hother
    show position + blank.byteLength < other.position
    omega

/-- Tokens that tile a text stand where they are placed. -/
theorem standsAt (h : Tiled position text tokens) :
    ∀ placed ∈ tokens, ∃ before after : Text, text = before ++ after ∧
      placed.position = position + before.byteLength ∧ placed.token.StandsAt after := by
  induction h with
  | @finish position blank hblank =>
    exact List.forall_mem_singleton.mpr ⟨blank, [], (List.append_nil _).symm, rfl, .endOfInput⟩
  | @token position blank lexeme tokens hblank hexact hrest ih =>
    refine List.forall_mem_cons.mpr ⟨?_, fun placed hplaced => ?_⟩
    · exact ⟨blank, _, List.append_assoc _ _ _, rfl, .spelled hexact⟩
    · obtain ⟨before, after, hsplit, hposition, hstands⟩ := ih placed hplaced
      refine ⟨blank ++ lexeme.spelling ++ before, after, ?_, ?_, hstands⟩
      · rw [hsplit, List.append_assoc _ before]
      · rw [hposition, Text.byteLength_append, Text.byteLength_append]
        omega

end Tiled

/-- A text can be cut into tokens from the start of a character on if and only if they tile what stands
there: it is white space and the spellings of the tokens in turn, and none of these is cut short. Then
each token stands behind the one before it, and the only `endOfInput` behind the last byte. -/
theorem tokenizeFrom_eq_ok_iff (before body : Text) (tokens : List PlacedToken) :
    tokenizeFrom (before ++ body) before.byteLength = .ok tokens ↔
      Tiled before.byteLength body tokens ∧
      (tokens.Pairwise fun placed other => placed.position < other.position) ∧
      ∃ init, tokens = init ++ [⟨.endOfInput, (before ++ body).byteLength⟩] ∧
        ∀ placed ∈ init, placed.token ≠ .endOfInput := by
  rw [tokenizeFrom, Text.dropBytes_append, tokensFrom_eq_ok_iff, Text.byteLength_append]
  exact ⟨fun h => ⟨h, h.pairwise_position, h.exists_init⟩, And.left⟩

/-- One tick and a digit belong to the name before them, and further ticks to a parameter. -/
example : tokenize "A`1``2 [0:,0:]".toList =
    .ok [⟨.name "A`1".toList, 0⟩, ⟨.methodParam 2, 3⟩, ⟨.arraySuffix 2, 7⟩, ⟨.endOfInput, 14⟩] := by
  decide +kernel

end DocRef

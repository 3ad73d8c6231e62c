import DocRef.Proofs.Text.Characters
import DocRef.Token.Lexing

/-!
What the cutting of a text into tokens depends on, and what tokens it gives. White space in front
moves the tokens and does nothing else; the place where a text begins moves all positions alike
(`tokensFrom_shift`); the last token is `endOfInput`, and all others can be written
(`tokensFrom_writable`).
-/

namespace DocRef

namespace Text

theorem byteLength_append (text other : Text) :
    (text ++ other).byteLength = text.byteLength + other.byteLength := by
  induction text with
  | nil => simp [byteLength]
  | cons c text ih =>
    simp only [byteLength, List.cons_append, List.foldr_cons] at ih ⊢
    rw [ih, Nat.add_assoc]

theorem byteLength_cons (c : Char) (text : Text) :
    Text.byteLength (c :: text) = c.utf8Size + text.byteLength := rfl

theorem byteLength_cons_pos (c : Char) (text : Text) : 0 < Text.byteLength (c :: text) :=
  Nat.add_pos_left c.utf8Size_pos _

/-- Behind the bytes of a text stands what follows it. -/
theorem dropBytes_append (text other : Text) : (text ++ other).dropBytes text.byteLength = other := by
  induction text with
  | nil => exact dropBytes.eq_1 other
  | cons c text ih =>
    obtain ⟨count, hcount⟩ :=
      Nat.exists_eq_succ_of_ne_zero (Nat.pos_iff_ne_zero.mp (byteLength_cons_pos c text))
    rw [byteLength_cons] at hcount ⊢
    have hle : c.utf8Size ≤ count + 1 := by omega
    have hsub : count + 1 - c.utf8Size = byteLength text := by omega
    rw [hcount, List.cons_append, dropBytes, if_pos hle, hsub, ih]

end Text

/-- Whether a token stands for a piece of text: a name is an identifier with a marker, numbers fit
32 bits, and an array has a dimension. -/
def Token.Writable : Token → Prop
  | .arraySuffix rank => 1 ≤ rank ∧ rank ≤ Lexeme.maxNumber
  | .typeParam position | .methodParam position => position ≤ Lexeme.maxNumber
  | .name text => text.IsName
  | .endOfInput => False
  | _ => True

/-- Whether a token is a name or a generic parameter. -/
def Token.isWord : Token → Bool
  | .name _ | .typeParam _ | .methodParam _ => true
  | _ => false

/-! ### White space and positions -/

section Equations

variable {position : Nat} {text after : Text} {first : Char}

theorem tokensFrom_of_blank (h : text.dropWhile isBlank = []) :
    tokensFrom position text =
      .ok [⟨.endOfInput, position + Text.byteLength (text.takeWhile isBlank)⟩] := by
  rw [tokensFrom]
  split
  · rfl
  · next hfront => rw [h] at hfront; cases hfront

theorem tokensFrom_of_flaw {flaw : Flaw} (h : text.dropWhile isBlank = first :: after)
    (hread : Lexeme.read first after = .error flaw) :
    tokensFrom position text =
      .error ⟨position + Text.byteLength (text.takeWhile isBlank), flaw⟩ := by
  rw [tokensFrom]
  split
  · next hfront => rw [h] at hfront; cases hfront
  · next hfront =>
    rw [h] at hfront
    cases hfront
    split
    · next hflaw => rw [hread] at hflaw; cases hflaw; rfl
    · next hlexeme => rw [hread] at hlexeme; cases hlexeme

theorem tokensFrom_of_lexeme {lexeme : Lexeme} (h : text.dropWhile isBlank = first :: after)
    (hread : Lexeme.read first after = .ok lexeme) :
    tokensFrom position text =
      (tokensFrom (position + Text.byteLength (text.takeWhile isBlank) +
        lexeme.spelling.byteLength) lexeme.rest).map
          (⟨lexeme.token, position + Text.byteLength (text.takeWhile isBlank)⟩ :: ·) := by
  rw [tokensFrom]
  split
  · next hfront => rw [h] at hfront; cases hfront
  · next hfront =>
    rw [h] at hfront
    cases hfront
    split
    · next hflaw => rw [hread] at hflaw; cases hflaw
    · next hlexeme =>
      rw [hread] at hlexeme
      cases hlexeme
      split
      · next htokens => rw [htokens]; rfl
      · next htokens => rw [htokens]; rfl

theorem rest_length_lt {lexeme : Lexeme} (h : text.dropWhile isBlank = first :: after)
    (hread : Lexeme.read first after = .ok lexeme) : lexeme.rest.length < text.length := by
  have hrest := Lexeme.read_length hread
  have hdrop := (List.dropWhile_sublist isBlank (l := text)).length_le
  rw [h, List.length_cons] at hdrop
  omega

/-- White space in front of a text only moves its tokens. -/
theorem tokensFrom_blank_append {blank : Text} (h : ∀ c ∈ blank, isBlank c = true) :
    tokensFrom position (blank ++ text) = tokensFrom (position + blank.byteLength) text := by
  have htake : (blank ++ text).takeWhile isBlank = blank ++ text.takeWhile isBlank :=
    List.takeWhile_append_of_pos h
  have hdrop : (blank ++ text).dropWhile isBlank = text.dropWhile isBlank :=
    List.dropWhile_append_of_pos h
  cases hfront : text.dropWhile isBlank with
  | nil =>
    rw [tokensFrom_of_blank (hdrop.trans hfront), tokensFrom_of_blank hfront, htake,
      Text.byteLength_append, Nat.add_assoc]
  | cons first after =>
    cases hread : Lexeme.read first after with
    | error flaw =>
      rw [tokensFrom_of_flaw (hdrop.trans hfront) hread, tokensFrom_of_flaw hfront hread, htake,
        Text.byteLength_append, Nat.add_assoc]
    | ok lexeme =>
      rw [tokensFrom_of_lexeme (hdrop.trans hfront) hread, tokensFrom_of_lexeme hfront hread,
        htake, Text.byteLength_append, ← Nat.add_assoc]

end Equations

/-- A token at a place further on. -/
def PlacedToken.shift (distance : Nat) (placed : PlacedToken) : PlacedToken :=
  ⟨placed.token, placed.position + distance⟩

/-- A flaw at a place further on. -/
def Malformed.shift (distance : Nat) (malformed : Malformed) : Malformed :=
  ⟨malformed.position + distance, malformed.flaw⟩

/-- Tokens, or the flaw that there is instead, at a place further on. -/
def shiftTokens (distance : Nat) :
    Except Malformed (List PlacedToken) → Except Malformed (List PlacedToken)
  | .ok tokens => .ok (tokens.map (PlacedToken.shift distance))
  | .error malformed => .error (malformed.shift distance)

theorem tokensFrom_shift (distance position : Nat) (text : Text) :
    tokensFrom (position + distance) text = shiftTokens distance (tokensFrom position text) := by
  induction hlength : text.length using Nat.strongRecOn generalizing position text with
  | ind length ih =>
    have hstart : position + distance + Text.byteLength (text.takeWhile isBlank) =
        position + Text.byteLength (text.takeWhile isBlank) + distance := by
      omega
    cases hfront : text.dropWhile isBlank with
    | nil =>
      rw [tokensFrom_of_blank hfront, tokensFrom_of_blank hfront, hstart]
      rfl
    | cons first after =>
      cases hread : Lexeme.read first after with
      | error flaw =>
        rw [tokensFrom_of_flaw hfront hread, tokensFrom_of_flaw hfront hread, hstart]
        rfl
      | ok lexeme =>
        have hshorter := hlength ▸ rest_length_lt hfront hread
        rw [tokensFrom_of_lexeme hfront hread, tokensFrom_of_lexeme hfront hread, hstart,
          Nat.add_right_comm _ distance, ih _ hshorter _ lexeme.rest rfl]
        cases tokensFrom _ lexeme.rest <;> rfl

/-! ### The tokens that are read -/

namespace Lexeme

theorem isDigit_of_mem_leadingDigits {text : Text} {c : Char} (h : c ∈ text.leadingDigits) :
    isDigit c = true :=
  List.all_eq_true.mp List.all_takeWhile c h

theorem ticks_cases (text : Text) :
    (ticks text).1 = [] ∨ (ticks text).1 = [tick] ∨ (ticks text).1 = [tick, tick] := by
  unfold ticks
  split
  · exact .inr (.inr rfl)
  · exact .inr (.inl rfl)
  · exact .inl rfl

theorem isMarker_marker (text : Text) : (marker text).1.IsMarker := by
  simp only [marker]
  split
  · exact .inl rfl
  · next h =>
    rw [not_or] at h
    refine .inr ⟨(ticks text).2.leadingDigits, h.2, fun c => isDigit_of_mem_leadingDigits, ?_⟩
    rcases ticks_cases text with hticks | hticks | hticks
    · exact absurd hticks h.1
    · exact .inl (by rw [hticks]; rfl)
    · exact .inr (by rw [hticks]; rfl)

theorem isName_name {first : Char} (h : startsIdentifier first = true) (text : Text) :
    (name first text).spelling.IsName := by
  refine ⟨first :: text.takeWhile inIdentifier, (marker (text.dropWhile inIdentifier)).1, rfl,
    ⟨first, _, rfl, h, ?_⟩, isMarker_marker _⟩
  exact fun c hc => List.all_eq_true.mp List.all_takeWhile c hc

theorem writable_arraySuffix {text : Text} {lexeme : Lexeme} (h : arraySuffix text = some lexeme) :
    lexeme.token.Writable := by
  unfold arraySuffix at h
  split at h
  · cases h
    exact ⟨Nat.le_refl 1, by decide⟩
  · split at h
    · cases h
      refine ⟨?_, Nat.min_le_right _ _⟩
      exact Nat.le_min.mpr ⟨by omega, by decide⟩
    · cases h
  · cases h

theorem writable_genericParam {text : Text} {lexeme : Lexeme}
    (h : genericParam text = .ok lexeme) : lexeme.token.Writable := by
  simp only [genericParam] at h
  split at h
  · cases h
  · split at h
    · cases h
    · next hposition =>
      cases h
      split
      · exact Nat.not_lt.mp hposition
      · exact Nat.not_lt.mp hposition

theorem writable_punctuation {c : Char} {token : Token} (h : punctuation c = some token) :
    token.Writable := by
  unfold punctuation at h
  split at h <;> first | (cases h; exact trivial) | cases h

/-- A token that is read off a text can be written. -/
theorem writable_read {first : Char} {text : Text} {lexeme : Lexeme}
    (h : read first text = .ok lexeme) : lexeme.token.Writable := by
  unfold read at h
  split at h
  · exact writable_genericParam h
  · split at h
    · split at h
      · next hs =>
        cases h
        exact writable_arraySuffix hs
      · cases h
    · split at h
      · next hstarts =>
        cases h
        exact isName_name hstarts text
      · split at h
        · next hp =>
          cases h
          exact writable_punctuation hp
        · cases h

end Lexeme

/-- The tokens of a text can all be written, except for `endOfInput`, which stands at the end. -/
theorem tokensFrom_writable {position : Nat} {text : Text} {tokens : List PlacedToken}
    (h : tokensFrom position text = .ok tokens) :
    ∃ init last, tokens = init ++ [⟨.endOfInput, last⟩] ∧
      ∀ placed ∈ init, placed.token.Writable := by
  induction hlength : text.length using Nat.strongRecOn generalizing position text tokens with
  | ind length ih =>
    cases hfront : text.dropWhile isBlank with
    | nil =>
      rw [tokensFrom_of_blank hfront] at h
      cases h
      exact ⟨[], _, rfl, by simp⟩
    | cons first after =>
      cases hread : Lexeme.read first after with
      | error flaw =>
        rw [tokensFrom_of_flaw hfront hread] at h
        cases h
      | ok lexeme =>
        have hshorter := hlength ▸ rest_length_lt hfront hread
        rw [tokensFrom_of_lexeme hfront hread] at h
        cases hrest : tokensFrom (position + Text.byteLength (text.takeWhile isBlank) +
            lexeme.spelling.byteLength) lexeme.rest with
        | error malformed =>
          rw [hrest] at h
          cases h
        | ok rest =>
          rw [hrest] at h
          cases h
          obtain ⟨init, last, rfl, hwritable⟩ := ih _ hshorter hrest rfl
          refine ⟨⟨lexeme.token, _⟩ :: init, last, rfl, ?_⟩
          rintro placed hplaced
          rcases List.mem_cons.mp hplaced with rfl | hplaced
          · exact Lexeme.writable_read hread
          · exact hwritable placed hplaced

end DocRef

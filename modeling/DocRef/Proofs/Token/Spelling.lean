import DocRef.Node.Written
import DocRef.Proofs.Text.Parts
import DocRef.Proofs.Token.Lexing
import Mathlib.Data.List.Chain

/-!
How tokens are written, and that they are read back. A token reads back in front of any text that
does not continue it; words (names and generic parameters) can be continued, other tokens cannot. So
tokens that can be written, no two words among them next to each other, are the tokens of their
spellings one after another (`tokenizes_spelling`).
-/

namespace DocRef

namespace Text

/-- Whether a text continues no word. -/
def Stops (text : Text) : Prop :=
  ∀ c ∈ text.head?, inIdentifier c = false ∧ c ≠ tick

theorem stops_cons {c : Char} {text : Text} (h : inIdentifier c = false) (htick : c ≠ tick) :
    Stops (c :: text) := by
  rintro d hd
  cases hd
  exact ⟨h, htick⟩

theorem Stops.not_isDigit {rest : Text} (h : Stops rest) :
    ∀ c ∈ rest.head?, isDigit c = false := by
  intro c hc
  rw [← Bool.not_eq_true]
  intro hdigit
  have hin := inIdentifier_of_isDigit hdigit
  rw [(h c hc).1] at hin
  cases hin

end Text

namespace Lexeme

open Text

theorem ticks_cons {c : Char} (h : c ≠ tick) (text : Text) :
    ticks (tick :: c :: text) = ([tick], c :: text) := by
  unfold ticks
  split
  · next heq =>
    cases heq
    exact absurd rfl h
  · next heq =>
    cases heq
    rfl
  · next hone =>
    exact absurd rfl (hone (c :: text))

theorem ticks_of_head? {text : Text} (h : ∀ c ∈ text.head?, c ≠ tick) :
    ticks text = ([], text) := by
  unfold ticks
  split
  · exact absurd rfl (h tick rfl)
  · exact absurd rfl (h tick rfl)
  · rfl

theorem ne_tick_of_isDigit {c : Char} (h : isDigit c = true) : c ≠ tick :=
  ne_tick_of_inIdentifier (inIdentifier_of_isDigit h)

theorem ticks_append {marks digits rest : Text} (hmarks : marks = [tick] ∨ marks = [tick, tick])
    (hdigits : digits ≠ []) (hall : ∀ c ∈ digits, isDigit c = true) :
    ticks (marks ++ (digits ++ rest)) = (marks, digits ++ rest) := by
  obtain ⟨d, ds, rfl⟩ := List.exists_cons_of_ne_nil hdigits
  rcases hmarks with rfl | rfl
  · exact ticks_cons (ne_tick_of_isDigit (hall d List.mem_cons_self)) (ds ++ rest)
  · rfl

/-- A marker ends where its digits do. -/
theorem marker_numeral {marks digits rest : Text} (hmarks : marks = [tick] ∨ marks = [tick, tick])
    (hdigits : digits ≠ []) (hall : ∀ c ∈ digits, isDigit c = true)
    (hrest : ∀ c ∈ rest.head?, isDigit c = false) :
    Lexeme.marker (marks ++ (digits ++ rest)) = (marks ++ digits, rest) := by
  obtain ⟨htake, hdrop⟩ := takeWhile_append_of_stop hall hrest
  have hne : marks ≠ [] := by rcases hmarks with rfl | rfl <;> simp
  simp [Lexeme.marker, ticks_append hmarks hdigits hall, leadingDigits, htake, hdrop, hdigits, hne]

theorem marker_append {marker rest : Text} (hmarker : IsMarker marker) (hrest : Stops rest) :
    Lexeme.marker (marker ++ rest) = (marker, rest) := by
  rcases hmarker with rfl | ⟨digits, hne, hall, rfl | rfl⟩
  · have hticks := ticks_of_head? fun c hc => (hrest c hc).2
    simp [Lexeme.marker, hticks]
  · exact marker_numeral (.inl rfl) hne hall hrest.not_isDigit
  · exact marker_numeral (.inr rfl) hne hall hrest.not_isDigit

/-- A name is a run of characters of identifiers and the marker behind it. -/
theorem name_run {first : Char} {run rest : Text} (hrun : ∀ c ∈ run, inIdentifier c = true)
    (hrest : ∀ c ∈ rest.head?, inIdentifier c = false) :
    name first (run ++ rest) =
      ⟨.name (first :: run ++ (marker rest).1), first :: run ++ (marker rest).1, (marker rest).2⟩ := by
  obtain ⟨htake, hdrop⟩ := takeWhile_append_of_stop hrun hrest
  simp only [name, htake, hdrop]

/-- A name reads back in front of what does not continue it. -/
theorem name_append {first : Char} {run marker rest : Text}
    (hrun : ∀ c ∈ run, inIdentifier c = true) (hmarker : IsMarker marker) (hrest : Stops rest) :
    name first (run ++ (marker ++ rest)) =
      ⟨.name (first :: run ++ marker), first :: run ++ marker, rest⟩ := by
  have hstop : ∀ c ∈ (marker ++ rest).head?, inIdentifier c = false := by
    rcases hmarker with rfl | ⟨digits, -, -, rfl | rfl⟩
    · exact fun c hc => (hrest c hc).1
    · rintro c hc
      cases hc
      exact not_inIdentifier_tick
    · rintro c hc
      cases hc
      exact not_inIdentifier_tick
  rw [name_run hrun hstop, marker_append hmarker hrest]

/-- A generic parameter is one tick or two and the digits behind them. -/
theorem genericParam_numeral {marks digits rest : Text}
    (hmarks : marks = [tick] ∨ marks = [tick, tick]) (hdigits : digits ≠ [])
    (hall : ∀ c ∈ digits, isDigit c = true) (hnumber : digits.number ≤ maxNumber)
    (hrest : ∀ c ∈ rest.head?, isDigit c = false) :
    genericParam (marks ++ (digits ++ rest)) =
      .ok ⟨if marks.length = 2 then .methodParam digits.number else .typeParam digits.number,
        marks ++ digits, rest⟩ := by
  obtain ⟨htake, hdrop⟩ := takeWhile_append_of_stop hall hrest
  simp only [genericParam, ticks_append hmarks hdigits hall, leadingDigits, htake, hdrop, hdigits,
    Nat.not_lt.mpr hnumber, if_false]

theorem genericParam_append {marks rest : Text} {position : Nat}
    (hmarks : marks = [tick] ∨ marks = [tick, tick]) (hposition : position ≤ maxNumber)
    (hrest : Stops rest) :
    genericParam (marks ++ (decimal position ++ rest)) =
      .ok ⟨if marks.length = 2 then .methodParam position else .typeParam position,
        marks ++ decimal position, rest⟩ := by
  have hnumber := number_decimal position
  have hparam := genericParam_numeral hmarks (decimal_ne_nil position)
    (fun c => isDigit_of_mem_decimal) (hnumber.symm ▸ hposition) hrest.not_isDigit
  rwa [hnumber] at hparam

theorem dimensions_append (count : Nat) (rest : Text) :
    dimensions ((List.replicate count [',', '0', ':']).flatten ++ ']' :: rest) =
      (count, (List.replicate count [',', '0', ':']).flatten, ']' :: rest) := by
  induction count with
  | zero => rfl
  | succ count ih =>
    rw [List.replicate_succ, List.flatten_cons, List.append_assoc]
    simp only [List.cons_append, List.nil_append, dimensions, ih]

/-- An array suffix reads back, whatever stands behind it. -/
theorem arraySuffix_append {rank : Nat} (hone : 1 ≤ rank) (hmax : rank ≤ maxNumber) (rest : Text) :
    ∃ after, DocRef.arraySuffix rank ++ rest = '[' :: after ∧
      arraySuffix after = some ⟨.arraySuffix rank, DocRef.arraySuffix rank, rest⟩ := by
  obtain ⟨count, rfl⟩ := Nat.exists_eq_add_of_le' hone
  cases count with
  | zero => exact ⟨']' :: rest, rfl, rfl⟩
  | succ count =>
    have hjoin : join ',' (List.replicate (count + 1 + 1) ['0', ':']) =
        '0' :: ':' :: (List.replicate (count + 1) [',', '0', ':']).flatten := by
      rw [List.replicate_succ, join_cons, List.flatMap_replicate]
      rfl
    refine ⟨'0' :: ':' :: ((List.replicate (count + 1) [',', '0', ':']).flatten ++ ']' :: rest),
      ?_, ?_⟩
    · rw [DocRef.arraySuffix, if_neg (by omega), hjoin]
      simp
    · simp only [arraySuffix, dimensions_append, Nat.min_eq_left hmax]
      rw [DocRef.arraySuffix, if_neg (by omega), hjoin]

end Lexeme

/-- How a token is written. -/
def Token.spelling : Token → Text
  | .arraySuffix rank => DocRef.arraySuffix rank
  | .byRefMark => ['@']
  | .closeBrace => ['\x7d']
  | .closeParen => [')']
  | .comma => [',']
  | .dot => ['.']
  | .endOfInput => []
  | .methodParam position => tick :: tick :: Text.decimal position
  | .name text => text
  | .openBrace => ['\x7b']
  | .openParen => ['(']
  | .pointerMark => ['*']
  | .tilde => ['~']
  | .typeParam position => tick :: Text.decimal position

/-- A token reads back in front of a text that does not continue it. -/
theorem Lexeme.read_spelling {token : Token} {rest : Text} (hwritable : token.Writable)
    (hrest : token.isWord → rest.Stops) :
    ∃ first after, token.spelling ++ rest = first :: after ∧ isBlank first = false ∧
      read first after = .ok ⟨token, token.spelling, rest⟩ := by
  cases token with
  | arraySuffix rank =>
    obtain ⟨after, happend, hread⟩ := arraySuffix_append hwritable.1 hwritable.2 rest
    refine ⟨'[', after, happend, by decide, ?_⟩
    rw [read, if_neg (by decide), if_pos rfl, hread]
    rfl
  | typeParam position =>
    have hread := genericParam_append (.inl rfl) hwritable (hrest rfl)
    exact ⟨tick, _, rfl, by decide, (if_pos rfl).trans hread⟩
  | methodParam position =>
    have hread := genericParam_append (.inr rfl) hwritable (hrest rfl)
    exact ⟨tick, _, rfl, by decide, (if_pos rfl).trans hread⟩
  | name text =>
    obtain ⟨_, marker, rfl, ⟨first, run, rfl, hfirst, hrun⟩, hmarker⟩ := hwritable
    have hne : first ≠ tick := ne_tick_of_inIdentifier (inIdentifier_of_startsIdentifier hfirst)
    have hbracket : first ≠ '[' := by
      rintro rfl
      exact absurd hfirst (by decide)
    refine ⟨first, run ++ (marker ++ rest), by simp [Token.spelling],
      not_isBlank_of_startsIdentifier hfirst, ?_⟩
    rw [read, if_neg hne, if_neg hbracket, if_pos hfirst, name_append hrun hmarker (hrest rfl)]
    rfl
  | endOfInput => exact False.elim hwritable
  | _ => exact ⟨_, rest, rfl, by decide, rfl⟩

/-- What is written for a token that is no word continues no word. -/
theorem Token.stops_spelling {token : Token} (hwritable : token.Writable)
    (hword : token.isWord = false) (rest : Text) : (token.spelling ++ rest).Stops := by
  cases token with
  | arraySuffix rank =>
    obtain ⟨after, happend, -⟩ := Lexeme.arraySuffix_append hwritable.1 hwritable.2 rest
    rw [spelling, happend]
    exact Text.stops_cons (by decide) (by decide)
  | name _ => cases hword
  | typeParam _ => cases hword
  | methodParam _ => cases hword
  | endOfInput => exact False.elim hwritable
  | _ => exact Text.stops_cons (by decide) (by decide)

/-- Whether a text cuts into the given tokens, `endOfInput` aside. -/
def Text.Tokenizes (text : Text) (tokens : List Token) : Prop :=
  ∃ placed, tokenize text = .ok placed ∧ placed.map (·.token) = tokens ++ [.endOfInput]

/-- The place where a text begins has no part in what its tokens are. -/
theorem Text.tokenizes_iff (position : Nat) (text : Text) (tokens : List Token) :
    text.Tokenizes tokens ↔ ∃ placed, tokensFrom position text = .ok placed ∧
      placed.map (·.token) = tokens ++ [.endOfInput] := by
  have hshift := tokensFrom_shift position 0 text
  rw [Nat.zero_add] at hshift
  rw [Tokenizes, tokenize, hshift]
  cases tokensFrom 0 text with
  | error malformed => simp [shiftTokens]
  | ok placed => simp [shiftTokens, PlacedToken.shift, Function.comp_def]

/-- Whether at most one of two tokens is a word. -/
def Token.Apart (token other : Token) : Prop :=
  token.isWord = true → other.isWord = false

/-- Tokens are read back from their spellings. -/
theorem Text.tokenizes_spelling {tokens : List Token} (hwritable : ∀ t ∈ tokens, t.Writable)
    (hapart : tokens.IsChain Token.Apart) :
    Tokenizes (tokens.flatMap Token.spelling) tokens := by
  induction tokens with
  | nil => exact ⟨[⟨.endOfInput, 0⟩], tokensFrom_of_blank rfl, rfl⟩
  | cons token tokens ih =>
    have hrest : token.isWord → Stops (tokens.flatMap Token.spelling) := by
      intro hword
      cases tokens with
      | nil => simp [Stops]
      | cons next tokens =>
        have hnext : next.isWord = false := (List.isChain_cons_cons.mp hapart).1 hword
        exact Token.stops_spelling (hwritable next (by simp)) hnext _
    have htoken := hwritable token List.mem_cons_self
    obtain ⟨first, after, happend, hblank, hread⟩ := Lexeme.read_spelling htoken hrest
    have hfront : (first :: after).dropWhile isBlank = first :: after := by simp [hblank]
    have ih := ih (fun t ht => hwritable t (List.mem_cons_of_mem _ ht)) hapart.tail
    rw [List.flatMap_cons, happend, Tokenizes, tokenize, tokensFrom_of_lexeme hfront hread]
    obtain ⟨placed, hplaced, htokens⟩ := (tokenizes_iff _ _ _).mp ih
    rw [hplaced]
    exact ⟨_, rfl, by simp [htokens]⟩

end DocRef

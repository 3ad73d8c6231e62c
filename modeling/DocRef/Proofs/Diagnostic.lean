import DocRef.Command
import DocRef.Proofs.Grammar.Faults
import DocRef.Proofs.Grammar.Positions
import DocRef.Proofs.Token.Tiling

/-!
Where flaws stand. The position of a flaw is where a character of the text begins, or its end, and what
the flaw names stands there: the character, the number that is too large, the opener of the group or the
token (`Malformed.StandsFrom`). This holds for each of the readers' stages: the letter, the cutting into
tokens, and the grammar, whose flaws stand where its tokens do. So the caret under a text that is shown
with its flaw stands under what is wrong with it (`readFailure_pointsInto`).
-/

namespace DocRef

/-- Whether what a flaw names stands at the start of a text. -/
inductive Flaw.StandsAt : Flaw → Text → Prop
  | character {c : Char} {rest : Text} : StandsAt (.unexpectedCharacter c) (c :: rest)
  | opener {c : Char} {rest : Text} : StandsAt (.unterminatedGroup c) (c :: rest)
  | number {marks digits rest : Text} (hmarks : marks = [tick] ∨ marks = [tick, tick])
      (hdigits : digits.IsNumeral) (hrest : rest.StopsDigits)
      (hlarge : Lexeme.maxNumber < digits.number) :
    StandsAt .numberOutOfRange (marks ++ digits ++ rest)
  | unexpectedToken {token : Token} {text : Text} (expected : String) (htoken : token.StandsAt text) :
    StandsAt (.unexpectedToken expected token.description) text
  | trailingInput {token : Token} {text : Text} (htoken : token.StandsAt text) :
    StandsAt (.trailingInput token.description) text

/-- Whether a flaw stands in a text that begins at a byte position: where a character of the text
begins, or at its end. -/
def Malformed.StandsFrom (position : Nat) (text : Text) (malformed : Malformed) : Prop :=
  ∃ before after : Text, text = before ++ after ∧
    malformed.position = position + before.byteLength ∧ malformed.flaw.StandsAt after

/-- A flaw stands behind more text as it does without it. -/
theorem Malformed.StandsFrom.append {position : Nat} {front text : Text} {malformed : Malformed}
    (h : malformed.StandsFrom (position + front.byteLength) text) :
    malformed.StandsFrom position (front ++ text) := by
  obtain ⟨before, after, rfl, hposition, hstands⟩ := h
  refine ⟨front ++ before, after, (List.append_assoc _ _ _).symm, ?_, hstands⟩
  rw [hposition, Text.byteLength_append, Nat.add_assoc]

/-! ### Single tokens -/

namespace Lexeme

theorem standsAt_of_genericParam {text : Text} {flaw : Flaw}
    (h : genericParam (tick :: text) = .error flaw) : flaw.StandsAt (tick :: text) := by
  have htext := ticks_append_ticks (tick :: text)
  have hmarks := ticks_tick_cases text
  simp only [genericParam] at h
  generalize ticks (tick :: text) = taken at h htext hmarks
  obtain ⟨marks, after⟩ := taken
  simp only at h htext hmarks
  split at h
  · cases h
    exact .character
  · next hdigits =>
    split at h
    · next hlarge =>
      cases h
      have hsplit : marks ++ after.leadingDigits ++ after.dropWhile isDigit = tick :: text := by
        rw [List.append_assoc, Text.leadingDigits, List.takeWhile_append_dropWhile, htext]
      rw [← hsplit]
      exact .number hmarks ⟨hdigits, fun c => isDigit_of_mem_leadingDigits⟩
        (Text.head?_dropWhile _) hlarge
    · cases h

/-- Where no token can be read, what is named stands at the start. -/
theorem standsAt_of_read {first : Char} {after : Text} {flaw : Flaw}
    (h : read first after = .error flaw) : flaw.StandsAt (first :: after) := by
  unfold read at h
  split at h
  · next hfirst =>
    subst hfirst
    exact standsAt_of_genericParam h
  · split at h
    · next hfirst =>
      subst hfirst
      split at h
      · cases h
      · cases h
        exact .character
    · split at h
      · cases h
      · split at h
        · cases h
        · cases h
          exact .character

end Lexeme

/-- A character of punctuation stands where its token does. -/
theorem Token.StandsAt.mark {token : Token} {text : Text} (h : token.StandsAt text)
    (htoken : token ∈ Token.marks) : ∃ rest, text = token.spelling ++ rest := by
  cases h with
  | endOfInput => exact absurd htoken (by decide)
  | spelled hexact =>
    cases hexact with
    | mark _ => exact ⟨_, rfl⟩
    | _ => simp [Token.marks] at htoken

/-! ### Cutting into tokens -/

variable {position : Nat} {text : Text} {malformed : Malformed}

/-- Where a text cannot be cut into tokens, what is named stands. -/
theorem standsFrom_of_tokensFrom (h : tokensFrom position text = .error malformed) :
    malformed.StandsFrom position text := by
  induction hlength : text.length using Nat.strongRecOn generalizing position text with
  | ind length ih =>
    have htext : text.takeWhile isBlank ++ text.dropWhile isBlank = text :=
      List.takeWhile_append_dropWhile
    cases hfront : text.dropWhile isBlank with
    | nil =>
      rw [tokensFrom_of_blank hfront] at h
      cases h
    | cons first after =>
      rw [← htext, hfront]
      cases hread : Lexeme.read first after with
      | error flaw =>
        rw [tokensFrom_of_flaw hfront hread] at h
        cases h
        exact ⟨_, _, rfl, rfl, Lexeme.standsAt_of_read hread⟩
      | ok lexeme =>
        have hshorter := hlength ▸ rest_length_lt hfront hread
        obtain ⟨-, hspelling⟩ := Lexeme.exact_of_read hread
        rw [tokensFrom_of_lexeme hfront hread] at h
        cases hrest : tokensFrom (position + Text.byteLength (text.takeWhile isBlank) +
            lexeme.spelling.byteLength) lexeme.rest with
        | ok tokens =>
          rw [hrest] at h
          cases h
        | error other =>
          rw [hrest] at h
          cases h
          rw [hspelling]
          exact (ih _ hshorter hrest rfl).append.append

/-! ### The grammar -/

/-- An open group has its opener among the tokens. -/
theorem exists_opener {placed : List PlacedToken} {group : Char × Nat} {groups : List (Char × Nat)}
    (h : group ∈ placed.foldl trackGroups groups) :
    group ∈ groups ∨ ∃ opener ∈ placed, opener.position = group.2 ∧
      opener.token ∈ Token.marks ∧ opener.token.spelling = [group.1] := by
  induction placed generalizing groups with
  | nil => exact .inl h
  | cons first placed ih =>
    rcases ih h with hgroup | ⟨opener, hopener, hmark⟩
    · obtain ⟨token, place⟩ := first
      have hopened : ∀ c, group ∈ (c, place) :: groups → token ∈ Token.marks → token.spelling = [c] →
          group ∈ groups ∨ ∃ opener ∈ PlacedToken.mk token place :: placed,
            opener.position = group.2 ∧ opener.token ∈ Token.marks ∧
              opener.token.spelling = [group.1] := by
        intro c hmem htoken hspelling
        rcases List.mem_cons.mp hmem with rfl | hgroup
        · exact .inr ⟨_, List.mem_cons_self, rfl, htoken, hspelling⟩
        · exact .inl hgroup
      cases token with
      | openParen => exact hopened '(' hgroup (by decide) rfl
      | openBrace => exact hopened '\x7b' hgroup (by decide) rfl
      | closeParen => exact .inl (List.mem_of_mem_tail hgroup)
      | closeBrace => exact .inl (List.mem_of_mem_tail hgroup)
      | _ => exact .inl hgroup
    · exact .inr ⟨opener, List.mem_cons_of_mem _ hopener, hmark⟩

/-- What a grammar faults stands where one of the tokens does. -/
theorem FaultedBy.standsFrom {sentences : Set (List Token)} {placed : List PlacedToken}
    (h : FaultedBy sentences placed malformed) (htiled : Tiled position text placed) :
    malformed.StandsFrom position text := by
  obtain ⟨place, flaw⟩ := malformed
  rcases h.cause with ⟨found, hfinds⟩ | ⟨c, hgroup⟩
  · obtain ⟨front, bad, rest, rfl, hplace, rfl, -⟩ := h.token found hfinds
    obtain ⟨before, after, htext, hposition, hstands⟩ := htiled.standsAt bad (by simp)
    refine ⟨before, after, htext, hplace.trans hposition, ?_⟩
    rcases hfinds with ⟨expected, rfl⟩ | rfl
    · exact .unexpectedToken expected hstands
    · exact .trailingInput hstands
  · -- The end of the input is what could not be read, but the flaw stands at the group's opener.
    obtain rfl : flaw = .unterminatedGroup c := hgroup
    obtain ⟨init, last, rfl, -, -, hopen⟩ := (h.group c place).mp rfl
    rcases exists_opener (List.mem_of_head? hopen) with hnil | ⟨opener, hmem, hplace, hmark, hspelling⟩
    · cases hnil
    · obtain ⟨before, after, htext, hposition, hstands⟩ :=
        htiled.standsAt opener (List.mem_append_left _ hmem)
      obtain ⟨rest, rfl⟩ := hstands.mark hmark
      rw [hspelling] at htext
      exact ⟨before, c :: rest, htext, hplace.symm.trans hposition, .opener⟩

/-- What is faulted behind the place where a text is read from stands there. -/
theorem standsFrom_of_run {whole : Bool} {start : Reading} {sentences : Set (List Token)}
    (hstart : Reading.Recognizes whole start sentences)
    (h : (tokensFrom position text).bind start.run = .error malformed) :
    malformed.StandsFrom position text := by
  cases htokens : tokensFrom position text with
  | error other =>
    rw [htokens] at h
    cases h
    exact standsFrom_of_tokensFrom htokens
  | ok placed =>
    rw [htokens] at h
    exact (hstart.faultedBy_of_tokensFrom htokens h).standsFrom (tiled_of_tokensFrom htokens)

/-- A letter that names no kind stands behind the white space. -/
theorem standsFrom_of_splitKind (h : splitKind text = .error malformed) :
    malformed.StandsFrom 0 text := by
  have htext : text.takeWhile isBlank ++ text.dropWhile isBlank = text :=
    List.takeWhile_append_dropWhile
  unfold splitKind at h
  split at h
  · next letter body hfront =>
    split at h
    · cases h
    · cases h
      rw [hfront] at htext
      exact ⟨_, _, htext.symm, (Nat.zero_add _).symm, .character⟩
  · cases h

theorem standsFrom_of_parse (h : Reference.parse text = .error malformed) :
    malformed.StandsFrom 0 text := by
  cases hsplit : splitKind text with
  | error other =>
    rw [Reference.parse, hsplit] at h
    cases h
    exact standsFrom_of_splitKind hsplit
  | ok split =>
    obtain ⟨kind, start, body⟩ := split
    have hrun : (tokensFrom start body).bind (Reading.beforeSegment none).run = .error malformed := by
      rw [parse_of_splitKind hsplit] at h
      cases hread : (tokensFrom start body).bind (Reading.beforeSegment none).run with
      | ok node =>
        rw [hread] at h
        cases h
      | error other =>
        rw [hread] at h
        cases h
        rfl
    have hstands := standsFrom_of_run recognizes_reference hrun
    rw [start_of_splitKind hsplit, ← Nat.zero_add (Text.byteLength _)] at hstands
    rw [eq_append_of_splitKind hsplit]
    exact hstands.append

theorem standsFrom_of_parseType (h : Node.parseType text = .error malformed) :
    malformed.StandsFrom 0 text :=
  standsFrom_of_run recognizes_type h

/-! ### Carets -/

/-- The column of a place is the number of characters in front of it. -/
theorem columnOf_byteLength (before after : Text) :
    columnOf before.byteLength (before ++ after) = before.length := by
  induction before with
  | nil => cases after <;> rfl
  | cons c before ih =>
    obtain ⟨count, hcount⟩ :=
      Nat.exists_eq_succ_of_ne_zero (Nat.pos_iff_ne_zero.mp (Text.byteLength_cons_pos c before))
    have hrest : count + 1 - c.utf8Size = Text.byteLength before := by
      rw [Text.byteLength_cons] at hcount
      omega
    rw [hcount, List.cons_append, columnOf, hrest, ih, List.length_cons]
    exact nofun

/-- The lines that show a flaw: the text, and under it a caret. -/
def caretBlock (text : Text) (malformed : Malformed) (column : Nat) : List String :=
  ["# Error: Malformed Reference", "",
    s!"{malformed.flaw.message} at offset {malformed.position}:", "",
    "    " ++ text.str, "    " ++ Text.str (List.replicate column ' ' ++ ['^'])]

/-- The lines end there, unless there is a way to mend the flaw. -/
theorem markdownLines_malformedReference (text : Text) (malformed : Malformed) :
    ∃ fix, (Failure.malformedReference text malformed).markdownLines =
      caretBlock text malformed (columnOf malformed.position text) ++ fix := by
  obtain ⟨place, flaw⟩ := malformed
  cases flaw with
  | unterminatedGroup opener => exact ⟨_, rfl⟩
  | _ => exact ⟨[], rfl⟩

/-- A text that is no reference, or no type, is refused with the text itself and a flaw that stands where
one of its characters begins, or at its end. What is shown is the text, and under it a caret that is as
many columns to the right as there are characters in front of the flaw. -/
theorem readFailure_pointsInto {text : Text} {failure : Failure}
    (h : readReference text = .error failure ∨ readType text = .error failure) :
    ∃ (malformed : Malformed) (before after : Text) (fix : List String),
      failure = .malformedReference text malformed ∧
      text = before ++ after ∧ malformed.position = before.byteLength ∧
      malformed.flaw.StandsAt after ∧
      failure.markdown = unlines (caretBlock text malformed before.length ++ fix) := by
  obtain ⟨malformed, rfl, hstands⟩ : ∃ malformed, failure = .malformedReference text malformed ∧
      malformed.StandsFrom 0 text := by
    rcases h with h | h
    · unfold readReference at h
      split at h
      · cases h
      · next malformed hparse =>
        cases h
        exact ⟨malformed, rfl, standsFrom_of_parse hparse⟩
    · unfold readType at h
      split at h
      · cases h
      · next malformed hparse =>
        cases h
        exact ⟨malformed, rfl, standsFrom_of_parseType hparse⟩
  obtain ⟨before, after, htext, hposition, hflaw⟩ := hstands
  obtain ⟨fix, hlines⟩ := markdownLines_malformedReference text malformed
  rw [Nat.zero_add] at hposition
  have hcolumn : columnOf malformed.position text = before.length := by
    rw [hposition, htext, columnOf_byteLength]
  refine ⟨malformed, before, after, fix, rfl, htext, hposition, hflaw, ?_⟩
  rw [Failure.markdown, hlines, hcolumn]

/-- In `é(A{B` the brace is the innermost group left open. It begins at the fourth byte and is the
third character. -/
theorem readFailure_pointsInto_wide :
    ∃ fix, readReference "é(A\x7bB".toList = .error
        (.malformedReference "é(A\x7bB".toList ⟨4, .unterminatedGroup '\x7b'⟩) ∧
      (Failure.malformedReference "é(A\x7bB".toList ⟨4, .unterminatedGroup '\x7b'⟩).markdown =
        unlines (caretBlock "é(A\x7bB".toList ⟨4, .unterminatedGroup '\x7b'⟩ 3 ++ fix) := by
  have hread : readReference "é(A\x7bB".toList = .error
      (.malformedReference "é(A\x7bB".toList ⟨4, .unterminatedGroup '\x7b'⟩) := by
    decide +kernel
  obtain ⟨malformed, before, after, fix, hfailure, htext, hposition, -, hmarkdown⟩ :=
    readFailure_pointsInto (.inl hread)
  cases hfailure
  have hcolumn := columnOf_byteLength before after
  rw [← htext, ← hposition] at hcolumn
  have hbefore : before.length = 3 := hcolumn.symm.trans (by decide +kernel)
  exact ⟨fix, hread, hbefore ▸ hmarkdown⟩

end DocRef

import DocRef.Malformed
import DocRef.Text.Blank
import DocRef.Text.Identifier
import DocRef.Token

/-!
Cutting a text into tokens. White space separates tokens and is skipped; each token takes as many
characters as it can.
-/

namespace DocRef

/-- A token read off the front of a text: its spelling, and what stands after it. -/
structure Lexeme where
  token : Token
  spelling : Text
  rest : Text
deriving Repr, DecidableEq

namespace Lexeme

/-- The largest number a generic parameter may have, and the largest rank that is told apart. -/
def maxNumber : Nat := 0xffffffff

def punctuation : Char → Option Token
  | '(' => some .openParen
  | ')' => some .closeParen
  | '*' => some .pointerMark
  | ',' => some .comma
  | '.' => some .dot
  | '@' => some .byRefMark
  | '\x7b' => some .openBrace
  | '\x7d' => some .closeBrace
  | '~' => some .tilde
  | _ => none

/-- The dimensions `,0:` at the start of a text: their number, their spelling, and the rest. -/
def dimensions : Text → Nat × Text × Text
  | ',' :: '0' :: ':' :: text =>
    let (count, spelling, rest) := dimensions text
    (count + 1, ',' :: '0' :: ':' :: spelling, rest)
  | text => (0, [], text)

/-- The array suffix whose `[` has been read: `]` closes a suffix of rank one, and otherwise each
dimension is written `0:`. -/
def arraySuffix : Text → Option Lexeme
  | ']' :: rest => some ⟨.arraySuffix 1, ['[', ']'], rest⟩
  | '0' :: ':' :: text =>
    match dimensions text with
    | (count, spelling, ']' :: rest) =>
      some ⟨.arraySuffix (min (count + 1) maxNumber), '[' :: '0' :: ':' :: spelling ++ [']'], rest⟩
    | _ => none
  | _ => none

/-- The ticks at the start of a text, at most two, and what stands after them. -/
def ticks : Text → Text × Text
  | '\x60' :: '\x60' :: rest => ([tick, tick], rest)
  | '\x60' :: rest => ([tick], rest)
  | rest => ([], rest)

/-- The generic parameter at the start of a text that begins with a tick. A second tick makes it a
parameter of the method. -/
def genericParam (text : Text) : Except Flaw Lexeme :=
  let (ticks, after) := ticks text
  let digits := after.leadingDigits
  let position := digits.number
  if digits = [] then .error (.unexpectedCharacter tick)
  else if maxNumber < position then .error .numberOutOfRange
  else
    let token := if ticks.length = 2 then .methodParam position else .typeParam position
    .ok ⟨token, ticks ++ digits, after.dropWhile isDigit⟩

/-- The arity marker at the start of a text, empty if there is none, and what stands after it. -/
def marker (text : Text) : Text × Text :=
  let (ticks, after) := ticks text
  let digits := after.leadingDigits
  if ticks = [] ∨ digits = [] then ([], text) else (ticks ++ digits, after.dropWhile isDigit)

/-- The name that begins with a given character: an identifier, and the marker right after it. -/
def name (first : Char) (text : Text) : Lexeme :=
  let (marker, rest) := marker (text.dropWhile inIdentifier)
  let spelling := first :: text.takeWhile inIdentifier ++ marker
  ⟨.name spelling, spelling, rest⟩

/-- The token that begins with a given character. -/
def read (first : Char) (text : Text) : Except Flaw Lexeme :=
  if first = tick then genericParam (first :: text)
  else if first = '[' then
    match arraySuffix text with
    | some lexeme => .ok lexeme
    | none => .error (.unexpectedCharacter '[')
  else if startsIdentifier first then .ok (name first text)
  else match punctuation first with
    | some token => .ok ⟨token, [first], text⟩
    | none => .error (.unexpectedCharacter first)

theorem dimensions_length (text : Text) : (dimensions text).2.2.length ≤ text.length := by
  fun_induction dimensions text with
  | case1 text count spelling rest h ih =>
    simp only [h] at ih
    simp only [List.length_cons]
    omega
  | case2 text => simp

theorem arraySuffix_length {text : Text} {lexeme : Lexeme} (h : arraySuffix text = some lexeme) :
    lexeme.rest.length ≤ text.length := by
  unfold arraySuffix at h
  split at h
  · cases h
    simp
  · next text =>
    have := dimensions_length text
    split at h
    · next hd =>
      cases h
      simp only [hd, List.length_cons] at this
      simp only [List.length_cons]
      omega
    · cases h
  · cases h

theorem ticks_length (text : Text) :
    (ticks text).2.length ≤ text.length := by
  unfold ticks
  split <;> simp only [List.length_cons] <;> omega

theorem ticks_length_lt (text : Text) : (ticks (tick :: text)).2.length ≤ text.length := by
  cases text with
  | nil => simp [ticks, tick]
  | cons c rest =>
    by_cases h : c = tick
    · simp [ticks, tick, h]
    · have : ticks (tick :: c :: rest) = ([tick], c :: rest) := by
        unfold ticks
        split <;> simp_all [tick]
      simp [this]

theorem genericParam_length {text : Text} {lexeme : Lexeme}
    (h : genericParam (tick :: text) = .ok lexeme) : lexeme.rest.length ≤ text.length := by
  have := ticks_length_lt text
  have := (List.dropWhile_sublist isDigit (l := (ticks (tick :: text)).2)).length_le
  simp only [genericParam] at h
  split at h
  · cases h
  · split at h
    · cases h
    · cases h
      simp only
      omega

theorem marker_length (text : Text) : (marker text).2.length ≤ text.length := by
  have := ticks_length text
  have := (List.dropWhile_sublist isDigit (l := (ticks text).2)).length_le
  simp only [marker]
  split <;> simp only <;> omega

theorem name_length (first : Char) (text : Text) :
    (name first text).rest.length ≤ text.length := by
  have := (List.dropWhile_sublist inIdentifier (l := text)).length_le
  have := marker_length (text.dropWhile inIdentifier)
  simp only [name]
  omega

/-- A token takes at least its first character. -/
theorem read_length {first : Char} {text : Text} {lexeme : Lexeme}
    (h : read first text = .ok lexeme) : lexeme.rest.length ≤ text.length := by
  unfold read at h
  split at h
  · next hf => exact genericParam_length (hf ▸ h)
  · split at h
    · split at h
      · next hs =>
        simp only [Except.ok.injEq] at h
        exact h ▸ arraySuffix_length hs
      · cases h
    · split at h
      · simp only [Except.ok.injEq] at h
        exact h ▸ name_length first text
      · split at h
        · simp only [Except.ok.injEq] at h
          simp [← h]
        · cases h

end Lexeme

/-- The tokens of a text that begins at byte `position`. The last one is always `endOfInput`. -/
def tokensFrom (position : Nat) (text : Text) : Except Malformed (List PlacedToken) :=
  let start := position + Text.byteLength (text.takeWhile isBlank)
  match _front : text.dropWhile isBlank with
  | [] => .ok [⟨.endOfInput, start⟩]
  | first :: after =>
    match _read : Lexeme.read first after with
    | .error flaw => .error ⟨start, flaw⟩
    | .ok lexeme =>
      match tokensFrom (start + lexeme.spelling.byteLength) lexeme.rest with
      | .error malformed => .error malformed
      | .ok tokens => .ok (⟨lexeme.token, start⟩ :: tokens)
termination_by text.length
decreasing_by
  have := Lexeme.read_length _read
  have := (List.dropWhile_sublist isBlank (l := text)).length_le
  simp only [_front, List.length_cons] at this
  omega

def tokenize (text : Text) : Except Malformed (List PlacedToken) :=
  tokensFrom 0 text

/-- The tokens that stand at or after byte `start`, with their positions in the whole text. -/
def tokenizeFrom (text : Text) (start : Nat) : Except Malformed (List PlacedToken) :=
  tokensFrom start (text.dropBytes start)

end DocRef

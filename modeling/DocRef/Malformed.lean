import DocRef.Text

/-! Why a text is no reference, and where. -/

namespace DocRef

inductive Flaw
  /-- A generic parameter's number is too large. -/
  | numberOutOfRange
  /-- A complete reference is followed by something else. -/
  | trailingInput (found : String)
  /-- No token begins with this character. -/
  | unexpectedCharacter (c : Char)
  /-- The token found cannot stand here. -/
  | unexpectedToken (expected found : String)
  /-- The text ends inside a group. -/
  | unterminatedGroup (opener : Char)
deriving Repr, DecidableEq

def Flaw.message : Flaw → String
  | .numberOutOfRange => "number out of range"
  | .trailingInput found => s!"trailing input starting at {found}"
  | .unexpectedCharacter c => s!"unexpected character `{c}`"
  | .unexpectedToken expected found => s!"expected {expected}, found {found}"
  | .unterminatedGroup opener => s!"unterminated `{opener}`"

/-- A flaw and the byte position of the character or token that has it. -/
structure Malformed where
  position : Nat
  flaw : Flaw
deriving Repr, DecidableEq

end DocRef

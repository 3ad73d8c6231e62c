import DocRef.CanonicalId
import DocRef.Malformed

/-! What can go wrong, and how it is told in one line. -/

namespace DocRef

/-- A failure of a whole operation. -/
inductive Failure
  /-- The catalog file can be read, but describes no catalog. -/
  | catalogCorrupt (reason : String)
  /-- An entry of the catalog has no ID. -/
  | catalogInconsistency (member reason : String)
  | catalogNotFound (path : String)
  | duplicateType (name : String)
  /-- A file cannot be read. -/
  | io (detail : String)
  | json (detail : String)
  /-- A text is no reference. -/
  | malformedReference (input : Text) (malformed : Malformed)
  | invalidToml (detail : String)
  /-- A type is not in the catalog. -/
  | unknownType (name : String)
  /-- A reference names nothing, or more than one thing. -/
  | unresolved (reference : String)
deriving Repr, DecidableEq

def Failure.message : Failure → String
  | .catalogCorrupt reason => s!"catalog corrupt: {reason}"
  | .catalogInconsistency member reason =>
    s!"catalog inconsistency while encoding `{member}`: {reason}"
  | .catalogNotFound path => s!"catalog not found: {path}"
  | .duplicateType name => s!"duplicate type in catalog: `{name}`"
  | .io detail => s!"io: {detail}"
  | .json detail => s!"json: {detail}"
  | .malformedReference input ⟨position, flaw⟩ =>
    s!"malformed reference `{input.str}` at offset {position}: {flaw.message}"
  | .invalidToml detail => s!"toml deserialize: {detail}"
  | .unknownType name => s!"unknown type: `{name}`"
  | .unresolved reference => s!"unresolved reference: `{reference}`"

def Inconsistent.failure (inconsistent : Inconsistent) : Failure :=
  .catalogInconsistency inconsistent.subject.str inconsistent.cause.message

end DocRef

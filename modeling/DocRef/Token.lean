import DocRef.Arity

/-! The tokens of references. -/

namespace DocRef

inductive Token
  /-- `[]`, or `[0:,0:]` with one `0:` for each dimension. -/
  | arraySuffix (rank : Nat)
  | byRefMark
  | closeBrace
  | closeParen
  | comma
  | dot
  /-- Stands after the last token of a text, and only there. -/
  | endOfInput
  /-- Two ticks and a number: a parameter of the enclosing method. -/
  | methodParam (position : Nat)
  /-- An identifier with its arity marker, if it has one. -/
  | name (text : Text)
  | openBrace
  | openParen
  | pointerMark
  | tilde
  /-- One tick and a number: a parameter of the enclosing type. -/
  | typeParam (position : Nat)
deriving Repr, DecidableEq

def Token.description : Token → String
  | .arraySuffix rank => s!"array suffix of rank {rank}"
  | .byRefMark => "`@`"
  | .closeBrace => "`\x7d`"
  | .closeParen => "`)`"
  | .comma => "`,`"
  | .dot => "`.`"
  | .endOfInput => "end of input"
  | .methodParam position => s!"```{position}`"
  | .name text => "name `" ++ text.str ++ "`"
  | .openBrace => "`\x7b`"
  | .openParen => "`(`"
  | .pointerMark => "`*`"
  | .tilde => "`~`"
  | .typeParam position => s!"``{position}`"

/-- A token and the byte position where it begins. -/
structure PlacedToken where
  token : Token
  position : Nat
deriving Repr, DecidableEq

end DocRef

import DocRef.Text.Digits

/-!
Arity markers. A name ends in one tick and a number when it names a generic type with that many
parameters of its own, and in two ticks and a number when it names a generic method.
-/

namespace DocRef

/-- The mark that introduces an arity or a generic parameter. -/
def tick : Char := '\x60'

/-- The arity that the end of a name declares. -/
inductive Arity
  | none
  | type (count : Nat)
  | method (count : Nat)
deriving Repr, DecidableEq

/-- The largest arity a marker may state. -/
def maxArity : Nat := 0xffffffffffffffff

/-- Splits the arity marker off the end of a name. Digits with no tick before them, a tick with no
digits after it and a number above `maxArity` are no marker, and the name stays whole. -/
def splitArity (name : Text) : Text × Arity :=
  let digits : Text := (name.reverse.takeWhile isDigit).reverse
  match name.reverse.dropWhile isDigit with
  | [] => (name, .none)
  | mark :: before =>
    if mark ≠ tick ∨ digits = [] ∨ maxArity < digits.number then (name, .none)
    else match before with
      | [] => ([], .type digits.number)
      | c :: stem =>
        if c = tick then (stem.reverse, .method digits.number)
        else (before.reverse, .type digits.number)

/-- A type name with the marker of a given arity; arity zero has none. -/
def withArity (name : Text) (arity : Nat) : Text :=
  if arity = 0 then name else name ++ tick :: Text.decimal arity

end DocRef

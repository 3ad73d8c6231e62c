import DocRef.Text

/-! Numbers written with the ASCII digits. -/

namespace DocRef

/-- Whether a character is one of `0` to `9`. -/
def isDigit (c : Char) : Bool :=
  '0' ≤ c && c ≤ '9'

namespace Text

def leadingDigits (text : Text) : Text :=
  text.takeWhile isDigit

/-- The number that a run of digits writes, the most significant digit first. -/
def number (digits : Text) : Nat :=
  digits.foldl (fun value c => 10 * value + (c.toNat - '0'.toNat)) 0

/-- The digits of a number, without leading zeros. -/
def decimal (n : Nat) : Text :=
  Nat.toDigits 10 n

end Text

end DocRef

import DocRef.Text
import DocRef.Text.Alphabetic
import DocRef.Text.Numeric

/-!
The characters of identifiers. `#` belongs to them: it stands for the dot in the names of
constructors (`#ctor`) and of explicit interface members.
-/

namespace DocRef

/-- Whether a character has the property `Alphabetic`. -/
def isAlphabetic (c : Char) : Bool :=
  CharRange.anyContains alphabeticRanges c.toNat

/-- Whether a character is a number of any script. -/
def isNumeric (c : Char) : Bool :=
  CharRange.anyContains numericRanges c.toNat

def startsIdentifier (c : Char) : Bool :=
  isAlphabetic c || c == '_' || c == '#'

def inIdentifier (c : Char) : Bool :=
  isAlphabetic c || isNumeric c || c == '_' || c == '#'

end DocRef

/-! Sets of characters given by ranges of code points. -/

namespace DocRef

/-- The first and the last code point of a run. -/
abbrev CharRange := Nat × Nat

/-- Whether a code point lies in one of the ranges. The ranges are in increasing order, so the
search ends at the first one that begins above the code point. -/
def CharRange.anyContains : List CharRange → Nat → Bool
  | [], _ => false
  | (first, last) :: rest, code =>
    if code < first then false else if code ≤ last then true else anyContains rest code

end DocRef

import DocRef.Text

/-! The lines of a text. -/

namespace DocRef.Text

/-- The lines of a text. A line ends in a line feed, or in a carriage return and a line feed, that
does not belong to it; the last line may lack it. -/
def lines : Text → List Text
  | [] => []
  | '\n' :: rest => [] :: lines rest
  | '\r' :: '\n' :: rest => [] :: lines rest
  | c :: rest =>
    match lines rest with
    | [] => [[c]]
    | line :: more => (c :: line) :: more

end DocRef.Text

/-!
Text as its characters. Every rule about names, tokens and IDs is a rule about lists of characters;
positions are counted in UTF-8 bytes.
-/

namespace DocRef

/-- A text, character by character. -/
abbrev Text := List Char

namespace Text

/-- The number of bytes of the UTF-8 form. -/
def byteLength (text : Text) : Nat :=
  text.foldr (fun c length => c.utf8Size + length) 0

def utf8 (text : Text) : List UInt8 :=
  text.flatMap String.utf8EncodeChar

/-- What stands after the first `count` bytes: nothing if the count runs past the end or ends
inside a character. -/
def dropBytes : Nat → Text → Text
  | 0, text => text
  | _ + 1, [] => []
  | count + 1, c :: rest =>
    if c.utf8Size ≤ count + 1 then dropBytes (count + 1 - c.utf8Size) rest else []

/-- The parts of a text between the places where `separator` stands; there is always one. -/
def split (separator : Char) : Text → List Text
  | [] => [[]]
  | c :: rest =>
    if c = separator then [] :: split separator rest
    else match split separator rest with
      | [] => [[c]]
      | part :: parts => (c :: part) :: parts

/-- The parts one after another, with `separator` between them. -/
def join (separator : Char) (parts : List Text) : Text :=
  [separator].intercalate parts

/-- Puts `new` in every place where `old` stands. -/
def exchange (old new : Char) (text : Text) : Text :=
  text.map fun c => if c = old then new else c

def str (text : Text) : String :=
  String.ofList text

/-- Whether the UTF-8 form of the first text comes before that of the second, or is the same. -/
def byteOrdered (first second : Text) : Bool :=
  decide (first.utf8 ≤ second.utf8)

end Text

end DocRef

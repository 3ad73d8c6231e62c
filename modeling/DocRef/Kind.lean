/-! The kinds of symbols, and the letters that name them in references. -/

namespace DocRef

/-- What a reference with a kind letter refers to. -/
inductive SymbolKind
  | event
  | field
  | method
  | property
  | type
deriving Repr, DecidableEq

def SymbolKind.ofLetter? : Char → Option SymbolKind
  | 'E' => some .event
  | 'F' => some .field
  | 'M' => some .method
  | 'P' => some .property
  | 'T' => some .type
  | _ => none

def SymbolKind.letter : SymbolKind → Char
  | .event => 'E'
  | .field => 'F'
  | .method => 'M'
  | .property => 'P'
  | .type => 'T'

theorem SymbolKind.ofLetter?_letter (kind : SymbolKind) : ofLetter? kind.letter = some kind := by
  cases kind <;> rfl

/-- What a type declares under a name. -/
inductive MemberKind
  | constructor
  | event
  | field
  | method
  | property
deriving Repr, DecidableEq

/-- The kind under which references address a member. Constructors count as methods. -/
def MemberKind.symbolKind : MemberKind → SymbolKind
  | .constructor => .method
  | .event => .event
  | .field => .field
  | .method => .method
  | .property => .property

end DocRef

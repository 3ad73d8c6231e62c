import DocRef.Arity
import DocRef.Node

/-! The written form of reference trees, with no white space. -/

namespace DocRef

/-- The array suffix of a given rank. Rank one is written without dimensions. -/
def arraySuffix (rank : Nat) : Text :=
  if rank ≤ 1 then ['[', ']'] else '[' :: Text.join ',' (List.replicate rank ['0', ':']) ++ [']']

mutual

def Node.written : Node → Text
  | .root text => text
  | .child scope text => scope.written ++ '.' :: text
  | .closed generic arguments =>
    generic.written ++ '\x7b' :: Text.join ',' (Node.writtenAll arguments) ++ ['\x7d']
  | .array element rank => element.written ++ arraySuffix rank
  | .byRef target => target.written ++ ['@']
  | .pointer target => target.written ++ ['*']
  | .typeParam position => tick :: Text.decimal position
  | .methodParam position => tick :: tick :: Text.decimal position
  | .method member parameters returns =>
    member.written ++ '(' :: Text.join ',' (Node.writtenAll parameters) ++ ')' ::
      Node.writtenReturn returns

def Node.writtenAll : List Node → List Text
  | [] => []
  | node :: nodes => node.written :: Node.writtenAll nodes

def Node.writtenReturn : Option Node → Text
  | none => []
  | some node => '~' :: node.written

end

/-- The written form of a reference: the letter of its kind and a colon, if it has one, and the
tree. -/
def Reference.written (reference : Reference) : Text :=
  match reference.kind with
  | none => reference.node.written
  | some kind => kind.letter :: ':' :: reference.node.written

end DocRef

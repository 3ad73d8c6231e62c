import DocRef.Kind
import DocRef.Text

/-!
Reference trees. A tree may nest in ways that no reference is written: trees also come from outside,
and resolution answers for all of them.
-/

namespace DocRef

/-- A node of a reference tree. A dotted name is a chain of segments, each hanging from the one
before it, and a segment's text may end in an arity marker. -/
inductive Node
  /-- The first segment of a dotted name. -/
  | root (text : Text)
  /-- A further segment, after the scope it is looked up in. -/
  | child (scope : Node) (text : Text)
  /-- A generic type closed over its arguments, written in braces after the name. -/
  | closed (generic : Node) (arguments : List Node)
  | array (element : Node) (rank : Nat)
  | byRef (target : Node)
  | pointer (target : Node)
  /-- A parameter of the enclosing type, by its place. -/
  | typeParam (position : Nat)
  /-- A parameter of the enclosing method, by its place. -/
  | methodParam (position : Nat)
  /-- A member with its parameter list, and the return type that tells conversions apart. -/
  | method (member : Node) (parameters : List Node) (returns : Option Node)
deriving Repr

def Node.segment : Option Node → Text → Node
  | none, text => .root text
  | some scope, text => .child scope text

mutual

def Node.same : Node → Node → Bool
  | .root s, .root t => s == t
  | .child m s, .child n t => m.same n && s == t
  | .closed m xs, .closed n ys => m.same n && Node.sameAll xs ys
  | .array m i, .array n j => m.same n && i == j
  | .byRef m, .byRef n => m.same n
  | .pointer m, .pointer n => m.same n
  | .typeParam i, .typeParam j => i == j
  | .methodParam i, .methodParam j => i == j
  | .method m xs r, .method n ys q => m.same n && Node.sameAll xs ys && Node.sameOption r q
  | _, _ => false

def Node.sameAll : List Node → List Node → Bool
  | [], [] => true
  | x :: xs, y :: ys => x.same y && Node.sameAll xs ys
  | _, _ => false

def Node.sameOption : Option Node → Option Node → Bool
  | none, none => true
  | some x, some y => x.same y
  | _, _ => false

end

mutual

theorem Node.same_iff : (a b : Node) → (a.same b = true ↔ a = b)
  | .root _, b => by cases b <;> simp [Node.same]
  | .child m _, b => by cases b <;> simp [Node.same, Node.same_iff m]
  | .closed m xs, b => by cases b <;> simp [Node.same, Node.same_iff m, Node.sameAll_iff xs]
  | .array m _, b => by cases b <;> simp [Node.same, Node.same_iff m]
  | .byRef m, b => by cases b <;> simp [Node.same, Node.same_iff m]
  | .pointer m, b => by cases b <;> simp [Node.same, Node.same_iff m]
  | .typeParam _, b => by cases b <;> simp [Node.same]
  | .methodParam _, b => by cases b <;> simp [Node.same]
  | .method m xs r, b => by
    cases b <;>
      simp [Node.same, Node.same_iff m, Node.sameAll_iff xs, Node.sameOption_iff r, and_assoc]

theorem Node.sameAll_iff : (xs ys : List Node) → (Node.sameAll xs ys = true ↔ xs = ys)
  | [], ys => by cases ys <;> simp [Node.sameAll]
  | x :: xs, ys => by cases ys <;> simp [Node.sameAll, Node.same_iff x, Node.sameAll_iff xs]

theorem Node.sameOption_iff : (x y : Option Node) → (Node.sameOption x y = true ↔ x = y)
  | none, y => by cases y <;> simp [Node.sameOption]
  | some x, y => by cases y <;> simp [Node.sameOption, Node.same_iff x]

end

instance : DecidableEq Node := fun a b => decidable_of_iff _ (Node.same_iff a b)

/-- A reference: a tree, and the kind that its letter demands, if it has one. -/
structure Reference where
  kind : Option SymbolKind
  node : Node
deriving Repr, DecidableEq

end DocRef

import DocRef.Toml.Value

/-! Taking the contents of a document apart. A decoder refuses a value of the wrong shape. -/

namespace DocRef.Toml.Value

def asText? : Value → Option Text
  | .string text => some text
  | _ => none

def asItems? : Value → Option (List Value)
  | .array _ items => some items
  | _ => none

def asTexts? (value : Value) : Option (List Text) := do
  let items ← value.asItems?
  items.mapM asText?

/-- The values that a record has for some keys. A table has them under the keys and may leave keys
out; an array lists the values of all the keys in order. What else there is does not matter. -/
def fields? (keys : List Text) : Value → Option (List (Option Value))
  | .table _ entries => some (keys.map fun key => entries.lookup key)
  | .array _ items =>
    if keys.length ≤ items.length then some ((items.take keys.length).map some) else none
  | _ => none

/-- Decodes a field that may be absent. -/
def optional? {α : Type} (decode : Value → Option α) : Option Value → Option (Option α)
  | none => some none
  | some value => (decode value).map some

/-- Decodes a list that is empty if it is absent. -/
def listed? {α : Type} (decode : Value → Option (List α)) : Option Value → Option (List α)
  | none => some []
  | some value => decode value

/-- The word that a value chooses: a string, or a table whose only entry has that key and nothing in
it. -/
def choice? : Value → Option Text
  | .string word => some word
  | .table _ [(word, .table _ [])] => some word
  | .table _ [(word, .array _ [])] => some word
  | _ => none

end DocRef.Toml.Value

import DocRef.Text

/-! The values of TOML documents. -/

namespace DocRef.Toml

/-- How a table came to be, which decides what later lines may add to it. -/
inductive Origin
  /-- Written as a value, or the whole document; nothing is added through a path. -/
  | inline
  /-- Opened by its own header. -/
  | header
  /-- Named only on the way to a longer header. -/
  | implied
  /-- Made by a dotted key. -/
  | dotted
deriving Repr, DecidableEq

/-- A value. Numbers, dates and truth values are checked when they are read, but no document that is
asked for here gives them a meaning. -/
inductive Value
  | string (text : Text)
  | scalar
  /-- An array; one that headers build is extended by further headers. -/
  | array (extensible : Bool) (items : List Value)
  | table (origin : Origin) (entries : List (Text × Value))
deriving Repr

/-- The entries of a table, by their keys. -/
abbrev Entries := List (Text × Value)

end DocRef.Toml

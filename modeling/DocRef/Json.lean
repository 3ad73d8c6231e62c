import DocRef.Layout

/-! JSON documents, laid out. -/

namespace DocRef.Json

/-- Objects and arrays stand two columns further right for each level. -/
def style : LayoutStyle := ⟨2, false⟩

def hexDigit (n : Nat) : Char :=
  Nat.digitChar n

/-- A character within a string. Quotes, backslashes and control characters are escaped. -/
def escaped (c : Char) : Text :=
  if c = '"' then ['\\', '"']
  else if c = '\\' then ['\\', '\\']
  else if c = '\x08' then ['\\', 'b']
  else if c = '\x0c' then ['\\', 'f']
  else if c = '\n' then ['\\', 'n']
  else if c = '\r' then ['\\', 'r']
  else if c = '\t' then ['\\', 't']
  else if c < ' ' then
    ['\\', 'u', '0', '0', hexDigit (c.toNat / 16), hexDigit (c.toNat % 16)]
  else [c]

def string (text : Text) : Layout :=
  .word ("\"" ++ Text.str (text.flatMap escaped) ++ "\"")

def number (n : Nat) : Layout :=
  .word (toString n)

def null : Layout :=
  .word "null"

def array (items : List Layout) : Layout :=
  .block "[" "]" items

def object (fields : List (String × Layout)) : Layout :=
  .block "\x7b" "\x7d" (fields.map fun (key, value) => .labelled s!"\"{key}\": " value)

def render (document : Layout) : String :=
  document.render style 0

end DocRef.Json

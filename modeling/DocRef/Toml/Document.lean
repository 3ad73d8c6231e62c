import DocRef.Toml.Quoted
import DocRef.Toml.Scalar
import DocRef.Toml.Value

/-!
Reading TOML documents. A document is a list of lines: `key = value` gives an entry to the table
that the last header opened, `[path]` opens a table and `[[path]]` adds one to an array of tables.
-/

namespace DocRef.Toml

/-- The number of containers that may stand within each other, and of parts that a key may have. -/
def maxDepth : Nat := 79

def skipSpaces (text : Text) : Text :=
  text.dropWhile isSpace

def skipComment : Text → Text
  | '#' :: rest => rest.dropWhile isPlain
  | text => text

/-- What stands after spaces, line breaks and comments, which may all part the items of an array. -/
def skipBreaks (inComment : Bool) : Text → Text
  | [] => []
  | '\n' :: rest => skipBreaks false rest
  | '\r' :: '\n' :: rest => skipBreaks false rest
  | c :: rest =>
    if inComment then if isPlain c then skipBreaks true rest else c :: rest
    else if isSpace c then skipBreaks false rest
    else if c = '#' then skipBreaks true rest
    else c :: rest

/-- Whether a character may stand in a key without quotes. -/
def isBare (c : Char) : Bool :=
  c.isAlphanum || c = '-' || c = '_'

def keyPart? (text : Text) : Option (Text × Text) :=
  match text.takeWhile isBare with
  | [] => lineString? text
  | part => some (part, text.dropWhile isBare)

def key? : Nat → Text → Option (List Text × Text)
  | 0, _ => none
  | count + 1, text => do
    let (part, rest) ← keyPart? (skipSpaces text)
    match skipSpaces rest with
    | '.' :: rest =>
      let (parts, rest) ← key? count rest
      return (part :: parts, rest)
    | rest => return ([part], rest)

/-- Puts a value under a key, in the place of the one that is there. -/
def replace (entries : Entries) (key : Text) (value : Value) : Entries :=
  entries.map fun entry => if entry.1 = key then (key, value) else entry

/-- Changes the table at the end of a path. Tables on the way are made where there are none, and an
array of tables is entered at its last table. A path of a dotted key enters only tables that no line
has opened. -/
def descend (isDotted : Bool) (change : Origin → Entries → Option (Origin × Entries)) :
    List Text → Origin → Entries → Option (Origin × Entries)
  | [], origin, entries => change origin entries
  | key :: path, origin, entries =>
    match entries.lookup key with
    | none => do
      let made := if isDotted then .dotted else .implied
      let (inner, below) ← descend isDotted change path made []
      return (origin, entries ++ [(key, .table inner below)])
    | some (.table inner below) =>
      if inner = .inline ∨ (isDotted ∧ inner = .header) then none
      else do
        let (inner, below) ← descend isDotted change path inner below
        return (origin, replace entries key (.table inner below))
    | some (.array true items) =>
      match items.getLast? with
      | some (.table inner below) => do
        let (inner, below) ← descend isDotted change path inner below
        return (origin, replace entries key (.array true (items.dropLast ++ [.table inner below])))
      | _ => none
    | some _ => none

/-- Gives a table an entry under a dotted key. The last table must be one that dotted keys made, or
the table itself if the key has one part, and the entry must be new. -/
def assign (path : List Text) (value : Value) (origin : Origin) (entries : Entries) :
    Option (Origin × Entries) := do
  let key ← path.getLast?
  let scopes := path.dropLast
  let change := fun (origin : Origin) (entries : Entries) =>
    if (origin = .dotted ∨ scopes = []) ∧ (entries.lookup key).isNone then
      some (origin, entries ++ [(key, value)])
    else none
  descend true change scopes origin entries

/-- Opens the table of a header. It must be new, or named only by longer headers before. -/
def openTable (path : List Text) (entries : Entries) : Option Entries := do
  let key ← path.getLast?
  let change := fun (origin : Origin) (entries : Entries) =>
    match entries.lookup key with
    | none => some (origin, entries ++ [(key, .table .header [])])
    | some (.table .implied below) => some (origin, replace entries key (.table .header below))
    | some _ => none
  let (_, entries) ← descend false change path.dropLast .header entries
  return entries

/-- Adds a table to the array of a header. -/
def openElement (path : List Text) (entries : Entries) : Option Entries := do
  let key ← path.getLast?
  let change := fun (origin : Origin) (entries : Entries) =>
    match entries.lookup key with
    | none => some (origin, entries ++ [(key, .array true [.table .header []])])
    | some (.array true items) =>
      some (origin, replace entries key (.array true (items ++ [.table .header []])))
    | some _ => none
  let (_, entries) ← descend false change path.dropLast .header entries
  return entries

/-- The items of an array whose bracket has been read, after at most `count` of them. -/
def items? (value? : Text → Option (Value × Text)) : Nat → Text → Option (List Value × Text)
  | 0, _ => none
  | count + 1, text =>
    match skipBreaks false text with
    | ']' :: rest => some ([], rest)
    | text => do
      let (item, rest) ← value? text
      match skipBreaks false rest with
      | ',' :: rest =>
        let (items, rest) ← items? value? count rest
        return (item :: items, rest)
      | ']' :: rest => return ([item], rest)
      | _ => none

/-- The entries of an inline table, after at most `count` of them. They stand on one line, and no
comma follows the last. -/
def pairs? (value? : Text → Option (Value × Text)) :
    Nat → Entries → Text → Option (Entries × Text)
  | 0, _, _ => none
  | count + 1, entries, text => do
    let (path, rest) ← key? maxDepth text
    let rest ← match rest with
      | '=' :: rest => some rest
      | _ => none
    let (value, rest) ← value? (skipSpaces rest)
    let (_, entries) ← assign path value .inline entries
    match skipSpaces rest with
    | ',' :: rest => pairs? value? count entries rest
    | '\x7d' :: rest => return (entries, rest)
    | _ => none

/-- The value at the start of a text, with at most `depth` containers within each other. -/
def value? (depth : Nat) (text : Text) : Option (Value × Text) :=
  match depth, text with
  | depth + 1, '[' :: rest => do
    let (items, rest) ← items? (value? depth) (rest.length + 1) rest
    return (.array false items, rest)
  | depth + 1, '\x7b' :: rest =>
    match skipSpaces rest with
    | '\x7d' :: rest => some (.table .inline [], rest)
    | rest => do
      let (entries, rest) ← pairs? (value? depth) (rest.length + 1) [] rest
      return (.table .inline entries, rest)
  | _, text =>
    match string? text with
    | some (string, rest) => some (.string string, rest)
    | none => (scalar? text).map (.scalar, ·)

/-- What stands on the following lines, if nothing but a comment ends this one. -/
def endLine? (text : Text) : Option Text :=
  match skipComment (skipSpaces text) with
  | [] => some []
  | rest => newline? rest

inductive Line
  | blank
  | entry (path : List Text) (value : Value)
  | table (path : List Text)
  | element (path : List Text)

def line? (text : Text) : Option (Line × Text) :=
  match text with
  | [] => some (.blank, [])
  | '[' :: '[' :: rest => do
    let (path, rest) ← key? maxDepth rest
    match rest with
    | ']' :: ']' :: rest => (endLine? rest).map (.element path, ·)
    | _ => none
  | '[' :: rest => do
    let (path, rest) ← key? maxDepth rest
    match rest with
    | ']' :: rest => (endLine? rest).map (.table path, ·)
    | _ => none
  | c :: rest =>
    if c = '#' || c = '\n' || c = '\r' then (endLine? (c :: rest)).map (.blank, ·)
    else do
      let (path, rest) ← key? maxDepth (c :: rest)
      match rest with
      | '=' :: rest =>
        let (value, rest) ← value? maxDepth (skipSpaces rest)
        (endLine? rest).map (.entry path value, ·)
      | _ => none

/-- A document in the making: its entries, and the path of the table that entries go to. -/
structure Draft where
  entries : Entries
  current : List Text

/-- Adds a line to a document. -/
def Draft.add (draft : Draft) : Line → Option Draft
  | .blank => some draft
  | .table path => (openTable path draft.entries).map (⟨·, path⟩)
  | .element path => (openElement path draft.entries).map (⟨·, path⟩)
  | .entry path value => do
    let (_, entries) ← descend false (assign path value) draft.current .header draft.entries
    return { draft with entries }

/-- Adds the lines of a text, each of which takes at least one of `count` characters. -/
def Draft.addLines : Nat → Draft → Text → Option Draft
  | 0, draft, text => if text = [] then some draft else none
  | count + 1, draft, text =>
    match skipSpaces text with
    | [] => some draft
    | text => do
      let (line, rest) ← line? text
      let draft ← draft.add line
      draft.addLines count rest

/-- The table that a document describes. A byte order mark at its start is skipped. -/
def read? (document : Text) : Option Value := do
  let text := if document.head? = some '\ufeff' then document.drop 1 else document
  let draft ← Draft.addLines text.length ⟨[], []⟩ text
  return .table .inline draft.entries

end DocRef.Toml

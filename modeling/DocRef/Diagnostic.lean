import DocRef.Failure
import DocRef.Text.Lines

/-! Failures as they are shown to people: a block of Markdown that says what happened and, where
there is a way, how to mend it. -/

namespace DocRef

/-- The number of characters that begin before a byte position. -/
def columnOf : Nat → Text → Nat
  | 0, _ => 0
  | _, [] => 0
  | position, c :: rest => columnOf (position - c.utf8Size) rest + 1

/-- A line that points at the character at a byte position of the line above it. -/
def caretLine (input : Text) (position : Nat) : Text :=
  List.replicate (columnOf position input) ' ' ++ ['^']

/-- Lines as a text, each with a line feed at its end. -/
def unlines (lines : List String) : String :=
  lines.foldr (fun line text => line ++ "\n" ++ text) ""

namespace Failure

/-- What stands under the headings of a failure. -/
def markdownLines : Failure → List String
  | .catalogCorrupt reason =>
    ["# Error: Catalog Corrupt", "", reason, "", "## Fix", "",
      "Signatures use ID type syntax: `System.Int32`, `` `0[] ``, `Demo.Box\x7b``0\x7d`."]
  | .catalogInconsistency member reason =>
    ["# Error: Catalog Inconsistency", "", s!"Cannot encode an ID for `{member}`: {reason}"]
  | .catalogNotFound path =>
    ["# Error: Catalog Not Found", "", s!"`{path}` does not exist.", "", "## Fix", "",
      "Point `catalog` in `.docid.toml` at your catalog file, or pass it directly:", "",
      "    docid --catalog path/to/catalog.toml check"]
  | .duplicateType name =>
    ["# Error: Duplicate Type", "", s!"`{name}` is declared more than once in the catalog."]
  | .io detail => ["# Error: I/O", "", detail]
  | .json detail => ["# Error", "", (Failure.json detail).message]
  | .malformedReference input ⟨position, flaw⟩ =>
    let text := ["# Error: Malformed Reference", "", s!"{flaw.message} at offset {position}:", "",
      "    " ++ input.str, "    " ++ Text.str (caretLine input position)]
    match flaw with
    | .unterminatedGroup opener =>
      let closer := if opener = '(' then ')' else '\x7d'
      text ++ ["", "## Fix", "", s!"Close the `{opener}` with `{closer}`."]
    | _ => text
  | .invalidToml detail => ["# Error: Invalid TOML", "", detail]
  | .unknownType name =>
    ["# Error: Unknown Type", "", s!"`{name}` is not in the catalog.", "", "## Fix", "",
      "List the known IDs:", "", "    docid ids"]
  | .unresolved reference =>
    ["# Error: Unresolved Reference", "",
      s!"`{reference}` names nothing in the catalog, or more than one overload.", "", "## Fix", "",
      "Add a parameter list to pick one overload, e.g. `Widget.Parse(System.String)`."]

def markdown (failure : Failure) : String :=
  unlines failure.markdownLines

/-- A line of Markdown for a terminal: headings stand out in bold. -/
def terminalLine (line : Text) : String :=
  if line.head? = some '#' then "\x1b[1m" ++ line.str ++ "\x1b[0m" else line.str

def terminal (failure : Failure) : String :=
  unlines ((Text.lines failure.markdown.toList).map terminalLine)

end Failure

end DocRef

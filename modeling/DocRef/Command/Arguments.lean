import DocRef.Text

/-! The arguments of the command line. -/

namespace DocRef

inductive Command
  /-- Verify the references in the project's documents. -/
  | check
  /-- List all IDs of the catalog. -/
  | ids (json : Bool)
  /-- List the members of a type, inherited and hidden ones included. -/
  | members (type : Text)
  /-- Show the tree of a reference. -/
  | parse (reference : Text) (json : Bool)
  /-- Show the ID of what a reference names. -/
  | resolve (reference : Text)
deriving Repr, DecidableEq

/-- A command, and the catalog file that is to be used in the place of the configured one. -/
structure Invocation where
  catalog : Option Text
  command : Command
deriving Repr, DecidableEq

/-- The arguments of a command as far as they have been read. -/
structure Options where
  catalog : Option Text := none
  json : Bool := false
  operand : Option Text := none
deriving Repr, DecidableEq

/-- What a command takes. -/
structure CommandForm where
  takesJson : Bool
  takesOperand : Bool
deriving Repr, DecidableEq

namespace Invocation

def catalogOption : Text := "--catalog".toList

/-- Whether an argument is an option. A lone hyphen is an operand. -/
def isOption (argument : Text) : Bool :=
  argument.head? = some '-' && argument ≠ ['-']

/-- The value that an option has in the same argument, after an equals sign. -/
def attached? (option argument : Text) : Option Text :=
  let start := option ++ ['=']
  if start.isPrefixOf argument then some (argument.drop start.length) else none

/-- Sets the catalog file. It is given at most once in a place, and not empty. -/
def setCatalog? (current : Option Text) (value : Text) : Option Text :=
  if current.isSome ∨ value = [] then none else some value

def Options.setOperand? (form : CommandForm) (options : Options) (operand : Text) :
    Option Options :=
  if form.takesOperand ∧ options.operand = none then
    some { options with operand := some operand } else none

/-- Reads the arguments of a command. After `--` all arguments are operands. -/
def readOptions? (form : CommandForm) (options : Options) : List Text → Option Options
  | [] => some options
  | argument :: rest =>
    if argument = ['-', '-'] then rest.foldlM (Options.setOperand? form) options
    else if argument = "--json".toList then
      if form.takesJson ∧ ¬options.json then readOptions? form { options with json := true } rest
      else none
    else if argument = catalogOption then
      match rest with
      | value :: rest =>
        if isOption value then none
        else do
          let value ← setCatalog? options.catalog value
          readOptions? form { options with catalog := some value } rest
      | [] => none
    else match attached? catalogOption argument with
      | some value => do
        let value ← setCatalog? options.catalog value
        readOptions? form { options with catalog := some value } rest
      | none =>
        if isOption argument then none
        else do
          let options ← Options.setOperand? form options argument
          readOptions? form options rest

def command? (name : Text) (arguments : List Text) : Option (Option Text × Command) :=
  if name = "check".toList then do
    let options ← readOptions? ⟨false, false⟩ {} arguments
    return (options.catalog, .check)
  else if name = "ids".toList then do
    let options ← readOptions? ⟨true, false⟩ {} arguments
    return (options.catalog, .ids options.json)
  else if name = "members".toList then do
    let options ← readOptions? ⟨false, true⟩ {} arguments
    return (options.catalog, .members (← options.operand))
  else if name = "parse".toList then do
    let options ← readOptions? ⟨true, true⟩ {} arguments
    return (options.catalog, .parse (← options.operand) options.json)
  else if name = "resolve".toList then do
    let options ← readOptions? ⟨false, true⟩ {} arguments
    return (options.catalog, .resolve (← options.operand))
  else none

/-- Reads the arguments in front of the command, and the command. A catalog file that is given after
the command outweighs one in front of it. -/
def readFrom? (catalog : Option Text) : List Text → Option Invocation
  | [] => none
  | argument :: rest =>
    if argument = catalogOption then
      match rest with
      | value :: rest =>
        if isOption value then none
        else do
          let value ← setCatalog? catalog value
          readFrom? (some value) rest
      | [] => none
    else match attached? catalogOption argument with
      | some value => do
        let value ← setCatalog? catalog value
        readFrom? (some value) rest
      | none => do
        let (inner, command) ← command? argument rest
        return ⟨inner.or catalog, command⟩

/-- What the arguments ask for; `none` if they make no sense. -/
def ofArguments? (arguments : List Text) : Option Invocation :=
  readFrom? none arguments

def usage : String :=
  "Usage: docid [--catalog <PATH>] <COMMAND>\n\n" ++
  "Commands:\n" ++
  "  check                          verify every cref in the docs\n" ++
  "  ids [--json]                   every type and member ID in the catalog\n" ++
  "  members <TYPE>                 members incl. inherited, with hiding\n" ++
  "  parse <REFERENCE> [--json]     print the syntax tree\n" ++
  "  resolve <REFERENCE>            print the canonical ID it names\n"

end Invocation

end DocRef

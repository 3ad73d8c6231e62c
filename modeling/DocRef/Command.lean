import DocRef.Catalog.File
import DocRef.Command.Arguments
import DocRef.Command.Check
import DocRef.Diagnostic
import DocRef.Inheritance
import DocRef.Json
import DocRef.Node.Dump
import DocRef.Project.Cref

/-! The commands, from the files of a project to what is printed. -/

namespace DocRef

/-- What a command prints and the exit code it ends with. -/
structure Output where
  exitCode : Nat
  text : String
deriving Repr, DecidableEq

/-- What a process shows: its exit code and its two streams. -/
structure Outcome where
  exitCode : Nat
  stdout : String
  stderr : String
deriving Repr, DecidableEq

def Outcome.ofResult : Except Failure Output → Outcome
  | .ok output => ⟨output.exitCode, output.text, ""⟩
  | .error failure => ⟨1, "", failure.terminal⟩

def Outcome.misuse : Outcome :=
  ⟨2, "", Invocation.usage⟩

namespace Project

/-- The configuration of a project, with another catalog file if one is asked for. -/
def configWith (project : Project) (catalog : Option Text) : Except Failure Config := do
  let config ← Config.load project
  match catalog with
  | some path => return { config with catalog := path }
  | none => return config

def loadCatalog (project : Project) (config : Config) : Except Failure Catalog :=
  let path := config.catalogPath ['.']
  match project.readText path with
  | .error .notFound => .error (.catalogNotFound path.str)
  | .error (.unreadable detail) => .error (.io detail)
  | .ok text => Catalog.ofText text

end Project

def readReference (text : Text) : Except Failure Reference :=
  match Reference.parse text with
  | .ok reference => .ok reference
  | .error malformed => .error (.malformedReference text malformed)

/-- Reads the text of a type that stands alone. -/
def readType (text : Text) : Except Failure Node :=
  match Node.parseType text with
  | .ok node => .ok node
  | .error malformed => .error (.malformedReference text malformed)

namespace Catalog

def memberId (catalog : Catalog) (id : MemberId) : Except Failure Text :=
  (catalog.encodeMember id).mapError Inconsistent.failure

def listIds (catalog : Catalog) (json : Bool) : Except Failure (List String) := do
  let ids ← catalog.sortedIds.mapError Inconsistent.failure
  if json then return [Json.render (Json.array (ids.map Json.string))]
  else return ids.map Text.str

/-- The catalog type that the text of a reference names, open or closed. -/
def typeOf (catalog : Catalog) (text : Text) : Except Failure TypeId := do
  let reference ← readReference text
  match catalog.resolveReference reference with
  | .type (.named id) => return id
  | .type (.generic definition _) => return definition
  | _ => throw (.unknownType text.str)

def listMembers (catalog : Catalog) (text : Text) : Except Failure (List String) := do
  let type ← catalog.typeOf text
  let set ← catalog.mergedMembers type
  let head ← (catalog.encodeType type).mapError Inconsistent.failure
  let visible ← set.visible.mapM fun id => do
    let text ← catalog.memberId id
    return "  " ++ text.str
  let hidden ← set.hidden.mapM fun member => do
    let text ← catalog.memberId member.hidden
    let by' ← catalog.memberId member.hiddenBy
    return s!"  HIDDEN  {text.str}  by " ++ by'.str
  return head.str :: visible ++ hidden

/-- The ID of what the text of a reference names. -/
def idOf (catalog : Catalog) (text : Text) : Except Failure Text := do
  let reference ← readReference text
  match ← (catalog.encodeSymbol (catalog.resolveReference reference)).mapError
      Inconsistent.failure with
  | some id => return id
  | none => throw (.unresolved text.str)

end Catalog

def Invocation.execute (project : Project) (invocation : Invocation) : Except Failure Output :=
  let succeed (lines : List String) : Output := ⟨0, unlines lines⟩
  match invocation.command with
  | .parse text json => do
    let reference ← readReference text
    return succeed [if json then reference.json else reference.outline]
  | .check => do
    let config ← project.configWith invocation.catalog
    let catalog ← project.loadCatalog config
    let occurrences ← project.scan config
    let report := CheckReport.ofOccurrences catalog occurrences
    return ⟨report.exitCode, unlines (report.lines ++ report.summary)⟩
  | .ids json => do
    let catalog ← project.loadCatalog (← project.configWith invocation.catalog)
    return succeed (← catalog.listIds json)
  | .members text => do
    let catalog ← project.loadCatalog (← project.configWith invocation.catalog)
    return succeed (← catalog.listMembers text)
  | .resolve text => do
    let catalog ← project.loadCatalog (← project.configWith invocation.catalog)
    return succeed [(← catalog.idOf text).str]

/-- The outcome of a call of the program in a project. -/
def run (project : Project) (arguments : List Text) : Outcome :=
  match Invocation.ofArguments? arguments with
  | none => .misuse
  | some invocation => .ofResult (invocation.execute project)

end DocRef

import DocRef.Failure
import DocRef.Project.Path

/-! A project directory, as the files in it. -/

namespace DocRef

/-- The bytes of a file, under its path from the project's directory. -/
structure ProjectFile where
  path : Text
  bytes : ByteArray

/-- The files of a project. A directory is there if some file is in it. -/
structure Project where
  files : List ProjectFile
  /-- Files elsewhere, under the paths by which the project refers to them. -/
  elsewhere : List ProjectFile := []

inductive ReadFault
  | notFound
  | unreadable (detail : String)
deriving Repr, DecidableEq

/-- Where the way along a path has come to. -/
inductive Place
  /-- A directory of the project, by its components from the last to the first. -/
  | directory (within : List Text)
  /-- A directory above the project's own. -/
  | above
  | file (bytes : ByteArray)

namespace Project

/-- The longest name that a component may have, in bytes. -/
def maxNameLength : Nat := 255

/-- The longest path that a file may be asked for by, in bytes. -/
def maxPathLength : Nat := 4095

def file? (project : Project) (components : List Text) : Option ProjectFile :=
  project.files.find? (Path.components ·.path = components)

def hasDirectory (project : Project) (components : List Text) : Bool :=
  project.files.any fun file =>
    components.isPrefixOf (Path.components file.path) &&
      components.length < (Path.components file.path).length

/-- Takes one component of a path. -/
def enter (project : Project) (place : Place) (component : Text) : Except ReadFault Place :=
  match place with
  | .file _ => .error (.unreadable "Not a directory")
  | .above =>
    if component = [] || component = ['.'] || component = ['.', '.'] then .ok .above
    else .error .notFound
  | .directory within =>
    if component = [] || component = ['.'] then .ok place
    else if component = ['.', '.'] then
      match within with
      | [] => .ok .above
      | _ :: outer => .ok (.directory outer)
    else if maxNameLength < component.byteLength then .error (.unreadable "File name too long")
    else
      let path := (component :: within).reverse
      match project.file? path with
      | some file => .ok (.file file.bytes)
      | none =>
        if project.hasDirectory path then .ok (.directory (component :: within))
        else .error .notFound

def read (project : Project) (path : Text) : Except ReadFault ByteArray :=
  if '\x00' ∈ path then .error (.unreadable "file name contained an unexpected NUL byte")
  else if maxPathLength < path.byteLength then .error (.unreadable "File name too long")
  else match project.elsewhere.find? (·.path = path) with
    | some file => .ok file.bytes
    | none => do
      let start := if path.head? = some '/' then .above else .directory []
      match ← (Path.components path).foldlM project.enter start with
      | .file bytes => return bytes
      | _ => throw (.unreadable "Is a directory")

def readText (project : Project) (path : Text) : Except ReadFault Text := do
  let bytes ← project.read path
  match String.fromUTF8? bytes with
  | some text => return text.toList
  | none => throw (.unreadable "the file is no UTF-8 text")

end Project

end DocRef

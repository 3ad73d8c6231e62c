import DocRef.Command

/-! The program: reads the files that an invocation needs, runs it and prints its outcome. -/

namespace DocRef

/-- The contents of the file at a path on disk, if it can be read. -/
def readFile? (path : String) : IO (Option ByteArray) :=
  try
    return some (← IO.FS.readBinFile path)
  catch _ => return none

/-- The files in the working directory, by their paths in it. -/
def workingFiles : IO (List ProjectFile) := do
  let root := System.mkFilePath ["."]
  let mut files := []
  for path in ← root.walkDir do
    unless ← path.isDir do
      if let some bytes ← readFile? path.toString then
        files := ⟨path.toString.toList.drop 2, bytes⟩ :: files
  return files

/-- The project in the working directory, and the catalog file that it may have elsewhere. -/
def workingProject (invocation : Invocation) : IO Project := do
  let project : Project := { files := ← workingFiles }
  match project.configWith invocation.catalog with
  | .error _ => return project
  | .ok config =>
    let path := config.catalogPath ['.']
    match project.read path with
    | .ok _ => return project
    | .error _ =>
      match ← readFile? path.str with
      | some bytes => return { project with elsewhere := [⟨path, bytes⟩] }
      | none => return project

end DocRef

def main (arguments : List String) : IO UInt32 := do
  let texts := arguments.map String.toList
  let project ← match DocRef.Invocation.ofArguments? texts with
    | some invocation => DocRef.workingProject invocation
    | none => pure { files := [] }
  let outcome := DocRef.run project texts
  IO.print outcome.stdout
  IO.eprint outcome.stderr
  return outcome.exitCode.toUInt32

import DocRef.Text

/-! Paths, written with `/` between their components. -/

namespace DocRef.Path

/-- The components of a path. -/
def components (path : Text) : List Text :=
  path.split '/'

/-- A path taken from a directory on. An absolute path stays as it is; nothing is simplified. -/
def join (directory path : Text) : Text :=
  if path.head? = some '/' ∨ directory = [] then path
  else if directory.getLast? = some '/' then directory ++ path
  else directory ++ '/' :: path

/-- The last component. -/
def fileName (path : Text) : Text :=
  (components path).getLastD []

/-- The part of a file name after its last dot. A name whose only dot stands at its front has no
extension. -/
def extension? (path : Text) : Option Text :=
  let name := (fileName path).reverse
  match name.dropWhile (· ≠ '.') with
  | [] => none
  | _ :: before => if before = [] then none else some (name.takeWhile (· ≠ '.')).reverse

/-- Whether a path comes before another or is the same, when their components are compared one
after the other by their bytes. This is the order of a walk that goes through each directory by the
names in it and enters a directory where its name stands. -/
def ordered (first second : Text) : Bool :=
  decide ((components first).map Text.utf8 ≤ (components second).map Text.utf8)

end DocRef.Path

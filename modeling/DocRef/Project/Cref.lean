import DocRef.Project.Config
import DocRef.Text.Blank
import DocRef.Text.Lines

/-!
References in the documents of a project: the values of `cref` attributes, in double or single
quotes, on one line.
-/

namespace DocRef

/-- A `cref` attribute of a file. -/
structure Occurrence where
  /-- The file, from the project's directory on. -/
  file : Text
  /-- The line, counted from one. -/
  line : Nat
  /-- The value as it is written. -/
  text : Text
deriving Repr, DecidableEq

namespace Occurrence

/-- The value that a text begins with up to the next `quote`, and what stands after it. -/
def quoted? (quote : Char) (text : Text) : Option (Text × Text) :=
  match text.dropWhile (· ≠ quote) with
  | _ :: rest => some (text.takeWhile (· ≠ quote), rest)
  | [] => none

/-- The attribute that a text begins with: its value and what stands after it. White space may
stand on both sides of the `=`. -/
def attribute? : Text → Option (Text × Text)
  | 'c' :: 'r' :: 'e' :: 'f' :: rest =>
    match rest.dropWhile isBlank with
    | '=' :: rest =>
      match rest.dropWhile isBlank with
      | '"' :: rest => quoted? '"' rest
      | '\'' :: rest => quoted? '\'' rest
      | _ => none
    | _ => none
  | _ => none

theorem quoted?_length {quote : Char} {text value rest : Text}
    (h : quoted? quote text = some (value, rest)) : rest.length ≤ text.length := by
  have := (List.dropWhile_sublist (· ≠ quote) (l := text)).length_le
  unfold quoted? at h
  split at h
  · next hd =>
    cases h
    simp only [hd, List.length_cons] at this
    omega
  · cases h

theorem attribute?_length {text value rest : Text} (h : attribute? text = some (value, rest)) :
    rest.length < text.length := by
  unfold attribute? at h
  split at h
  · next start =>
    have := (List.dropWhile_sublist isBlank (l := start)).length_le
    simp only [List.length_cons]
    split at h
    · next sign hs =>
      have := (List.dropWhile_sublist isBlank (l := sign)).length_le
      simp only [hs, List.length_cons] at *
      split at h
      · next hq =>
        have := quoted?_length h
        simp only [hq, List.length_cons] at *
        omega
      · next hq =>
        have := quoted?_length h
        simp only [hq, List.length_cons] at *
        omega
      · cases h
    · cases h
  · cases h

/-- The values of all attributes on a line, from left to right. Each search begins where the
attribute before it ends. -/
def values (text : Text) : List Text :=
  match text with
  | [] => []
  | c :: rest =>
    match _attribute : attribute? (c :: rest) with
    | some (value, after) => value :: values after
    | none => values rest
termination_by text.length
decreasing_by
  · exact attribute?_length _attribute
  · simp

/-- The attributes of a file's text, line by line. -/
def ofText (file text : Text) : List Occurrence :=
  (Text.lines text).zipIdx.flatMap fun (line, index) =>
    (values line).map fun value => ⟨file, index + 1, value⟩

end Occurrence

namespace Project

/-- The files that carry references, in the order of a walk through the directory. -/
def scannedFiles (project : Project) (config : Config) : List ProjectFile :=
  (project.files.filter fun file =>
    (Path.extension? file.path).any config.scansExtension && config.shouldScan file.path).mergeSort
      fun first second => Path.ordered first.path second.path

/-- The references of some files. All of them must be UTF-8 texts. -/
def occurrencesIn : List ProjectFile → Except Failure (List Occurrence)
  | [] => .ok []
  | file :: files =>
    match String.fromUTF8? file.bytes with
    | none => .error (.io "the file is no UTF-8 text")
    | some text => do
      let rest ← occurrencesIn files
      return Occurrence.ofText file.path text.toList ++ rest

/-- The references of a project. -/
def scan (project : Project) (config : Config) : Except Failure (List Occurrence) :=
  occurrencesIn (project.scannedFiles config)

end Project

end DocRef

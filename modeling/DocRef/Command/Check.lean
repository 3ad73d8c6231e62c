import DocRef.Project.Cref
import DocRef.Resolution
import DocRef.Node.Parsing

/-! Checking that every reference in the documents of a project names something. -/

namespace DocRef

/-- What becomes of a reference. -/
inductive Verdict
  | malformed (malformed : Malformed)
  | unresolved
  | resolved
deriving Repr, DecidableEq

/-- What becomes of the text of a reference in a catalog. -/
def Catalog.judge (catalog : Catalog) (text : Text) : Verdict :=
  match Reference.parse text with
  | .error malformed => .malformed malformed
  | .ok reference =>
    match catalog.resolveReference reference with
    | .unresolved => .unresolved
    | _ => .resolved

namespace Occurrence

/-- The line that reports a text that is no reference. -/
def malformedLine (occurrence : Occurrence) : Malformed → String
  | ⟨position, flaw⟩ =>
    let place := s!"{occurrence.file.str}:{occurrence.line}"
    s!"MALFORMED   {place}  {occurrence.text.str}  ({flaw.message} at offset {position})"

/-- The line that reports a reference that names nothing. -/
def unresolvedLine (occurrence : Occurrence) : String :=
  s!"UNRESOLVED  {occurrence.file.str}:{occurrence.line}  {occurrence.text.str}"

/-- The line that reports a reference, if it is reported. -/
def report? (occurrence : Occurrence) : Verdict → Option String
  | .malformed malformed => some (occurrence.malformedLine malformed)
  | .unresolved => some occurrence.unresolvedLine
  | .resolved => none

end Occurrence

structure CheckReport where
  /-- One line for each reference that is reported. -/
  lines : List String
  malformed : Nat
  unresolved : Nat
  total : Nat
deriving Repr, DecidableEq

namespace CheckReport

/-- The number at which the counts of reported references stop. -/
def maxCount : Nat := 0xffffffff

def ofOccurrences (catalog : Catalog) (occurrences : List Occurrence) : CheckReport :=
  let verdicts := occurrences.map fun occurrence => (occurrence, catalog.judge occurrence.text)
  { lines := verdicts.filterMap fun (occurrence, verdict) => occurrence.report? verdict
    malformed := min maxCount (verdicts.countP fun (_, verdict) => verdict matches .malformed _)
    unresolved := min maxCount (verdicts.countP fun (_, verdict) => verdict matches .unresolved)
    total := occurrences.length }

def summary (report : CheckReport) : List String :=
  if 0 < report.malformed then
    ["", s!"{report.malformed} malformed, {report.unresolved} unresolved"]
  else if 0 < report.unresolved then ["", s!"{report.unresolved} unresolved"]
  else [s!"All {report.total} references resolve"]

/-- The exit code of a check: malformed references outweigh unresolved ones. -/
def exitCode (report : CheckReport) : Nat :=
  if 0 < report.malformed then 2 else if 0 < report.unresolved then 1 else 0

end CheckReport

end DocRef

import Mathlib.Data.List.Forall2
import DocRef.Proofs.CanonicalId.Totality

/-!
A check prints a line for a reference if the reference is malformed or names nothing, each line for
its own reference and in their order (`Reports`), and closes with the numbers of these lines
(`Closes`). What it says of a text is what the command that resolves the text says (`Agrees`): there
a reference that means something must have an ID as well, which it always has.
-/

namespace DocRef

/-! ### What a check has to say -/

/-- The lines that a check has to print about a reference in a catalog. -/
inductive Catalog.Reports (catalog : Catalog) (occurrence : Occurrence) : List String → Prop
  | malformed {malformed : Malformed} (hparse : Reference.parse occurrence.text = .error malformed) :
    catalog.Reports occurrence [occurrence.malformedLine malformed]
  | unresolved {reference : Reference} (hparse : Reference.parse occurrence.text = .ok reference)
      (hmeans : catalog.resolveReference reference = .unresolved) :
    catalog.Reports occurrence [occurrence.unresolvedLine]
  | resolved {reference : Reference} (hparse : Reference.parse occurrence.text = .ok reference)
      (hmeans : catalog.resolveReference reference ≠ .unresolved) :
    catalog.Reports occurrence []

/-- Whether a line begins with a word. -/
def headed (word line : String) : Bool :=
  word.toList.isPrefixOf line.toList

/-- How a check ends after some lines about `total` references: its last lines, with the numbers of
the lines of each kind, and its exit code. -/
inductive Closes (lines : List String) (total : Nat) : List String → Nat → Prop
  | malformed {malformed unresolved : Nat} (hmalformed : lines.countP (headed "MALFORMED") = malformed)
      (hunresolved : lines.countP (headed "UNRESOLVED") = unresolved) (h : 0 < malformed) :
    Closes lines total ["", s!"{malformed} malformed, {unresolved} unresolved"] 2
  | unresolved {unresolved : Nat} (hmalformed : lines.countP (headed "MALFORMED") = 0)
      (hunresolved : lines.countP (headed "UNRESOLVED") = unresolved) (h : 0 < unresolved) :
    Closes lines total ["", s!"{unresolved} unresolved"] 1
  | clean (h : lines = []) : Closes lines total [s!"All {total} references resolve"] 0

/-- Whether the result of resolving a text is what the lines about the text say. -/
structure Agrees (lines : List String) (result : Except Failure Output) : Prop where
  success : (∃ output, result = .ok output) ↔ lines = []
  malformed : (∃ text malformed, result = .error (.malformedReference text malformed)) ↔
    ∃ line ∈ lines, headed "MALFORMED" line
  unresolved : (∃ text, result = .error (.unresolved text)) ↔
    ∃ line ∈ lines, headed "UNRESOLVED" line

/-- Whether a check of a catalog accounts for every reference: it reports each one as it has to, closes
with the numbers of what it reports, and agrees with resolving, wherever the catalog is. -/
structure Catalog.Accounts (catalog : Catalog) (occurrences : List Occurrence) (output : Output)
    (blocks : List (List String)) (closing : List String) : Prop where
  text : output.text = unlines (blocks.flatten ++ closing)
  reports : List.Forall₂ catalog.Reports occurrences blocks
  closes : Closes blocks.flatten occurrences.length closing output.exitCode
  agrees : List.Forall₂ (fun occurrence lines => ∀ (project : Project) (path : Option Text),
    project.Uses ⟨path, .resolve occurrence.text⟩ catalog →
      Agrees lines (Invocation.execute project ⟨path, .resolve occurrence.text⟩)) occurrences blocks

/-! ### Lines -/

section Lines

/-- What comes after the front of a line does not change the words that the line begins with. -/
theorem headed_append {word front : String} (hlength : word.toList.length ≤ front.toList.length)
    (rest : String) : headed word (front ++ rest) = headed word front := by
  rw [Bool.eq_iff_iff, headed, headed, List.isPrefixOf_iff_prefix, List.isPrefixOf_iff_prefix,
    String.toList_append]
  constructor
  · intro h
    exact List.prefix_of_prefix_length_le h (List.prefix_append _ _) hlength
  · exact List.prefix_append_of_prefix

variable (occurrence : Occurrence)

theorem malformedLine_eq (malformed : Malformed) :
    ∃ rest, occurrence.malformedLine malformed = "MALFORMED   " ++ rest := by
  obtain ⟨position, flaw⟩ := malformed
  have hfront : toString "MALFORMED   " = "MALFORMED   " := rfl
  dsimp only [Occurrence.malformedLine]
  simp only [hfront, String.append_assoc]
  exact ⟨_, rfl⟩

theorem unresolvedLine_eq : ∃ rest, occurrence.unresolvedLine = "UNRESOLVED  " ++ rest := by
  have hfront : toString "UNRESOLVED  " = "UNRESOLVED  " := rfl
  dsimp only [Occurrence.unresolvedLine]
  simp only [hfront, String.append_assoc]
  exact ⟨_, rfl⟩

@[simp] theorem headed_malformedLine (malformed : Malformed) :
    headed "MALFORMED" (occurrence.malformedLine malformed) = true ∧
      headed "UNRESOLVED" (occurrence.malformedLine malformed) = false := by
  obtain ⟨rest, hline⟩ := malformedLine_eq occurrence malformed
  rw [hline, headed_append (by decide), headed_append (by decide)]
  decide

@[simp] theorem headed_unresolvedLine :
    headed "MALFORMED" occurrence.unresolvedLine = false ∧
      headed "UNRESOLVED" occurrence.unresolvedLine = true := by
  obtain ⟨rest, hline⟩ := unresolvedLine_eq occurrence
  rw [hline, headed_append (by decide), headed_append (by decide)]
  decide

end Lines

/-! ### The report -/

namespace CheckReport

/-- Whether the counts of a report are those of its lines, and each line is of one of both kinds. -/
structure Counted (report : CheckReport) : Prop where
  malformed : report.malformed = report.lines.countP (headed "MALFORMED")
  unresolved : report.unresolved = report.lines.countP (headed "UNRESOLVED")
  reports : ∀ line ∈ report.lines, headed "MALFORMED" line = true ∨ headed "UNRESOLVED" line = true

theorem Counted.lines_eq_nil {report : CheckReport} (h : report.Counted)
    (hmalformed : report.malformed = 0) (hunresolved : report.unresolved = 0) :
    report.lines = [] := by
  rw [h.malformed, List.countP_eq_zero] at hmalformed
  rw [h.unresolved, List.countP_eq_zero] at hunresolved
  rw [List.eq_nil_iff_forall_not_mem]
  intro line hline
  cases h.reports line hline with
  | inl hword => exact hmalformed line hline hword
  | inr hword => exact hunresolved line hline hword

theorem Counted.closes {report : CheckReport} (h : report.Counted) :
    Closes report.lines report.total report.summary report.exitCode := by
  rw [summary, exitCode]
  by_cases hmalformed : 0 < report.malformed
  · rw [if_pos hmalformed, if_pos hmalformed]
    exact .malformed h.malformed.symm h.unresolved.symm hmalformed
  · have hnone : report.malformed = 0 := by omega
    rw [if_neg hmalformed, if_neg hmalformed]
    by_cases hunresolved : 0 < report.unresolved
    · rw [if_pos hunresolved, if_pos hunresolved]
      exact .unresolved (h.malformed.symm.trans hnone) h.unresolved.symm hunresolved
    · rw [if_neg hunresolved, if_neg hunresolved]
      exact .clean (h.lines_eq_nil hnone (by omega))

/-- The words that a line begins with tell its verdict. -/
theorem headed_report? (occurrence : Occurrence) (verdict : Verdict) :
    ((occurrence.report? verdict).map (headed "MALFORMED")).getD false =
        (verdict matches .malformed _) ∧
      ((occurrence.report? verdict).map (headed "UNRESOLVED")).getD false =
        (verdict matches .unresolved) := by
  cases verdict <;> simp [Occurrence.report?]

/-- The counts in a list that is not too long do not stop too soon. -/
theorem min_maxCount_countP {α : Type} {items : List α} (hlength : items.length < 0x100000000)
    (p : α → Bool) : min maxCount (items.countP p) = items.countP p :=
  min_eq_right (List.countP_le_length.trans (Nat.le_of_lt_succ hlength))

theorem ofOccurrences_counted (catalog : Catalog) {occurrences : List Occurrence}
    (hcount : occurrences.length < 0x100000000) : (ofOccurrences catalog occurrences).Counted where
  malformed := by
    simp only [ofOccurrences, List.countP_filterMap, (headed_report? _ _).1]
    exact min_maxCount_countP (by rwa [List.length_map]) _
  unresolved := by
    simp only [ofOccurrences, List.countP_filterMap, (headed_report? _ _).2]
    exact min_maxCount_countP (by rwa [List.length_map]) _
  reports line hline := by
    obtain ⟨⟨occurrence, verdict⟩, -, hreport⟩ := List.mem_filterMap.mp hline
    cases verdict with
    | malformed malformed =>
      cases hreport
      exact .inl (headed_malformedLine _ _).1
    | unresolved =>
      cases hreport
      exact .inr (headed_unresolvedLine _).2
    | resolved => cases hreport

end CheckReport

namespace Catalog

variable {catalog : Catalog} {occurrence : Occurrence}

/-- The lines that are printed about a reference. -/
def linesAbout (catalog : Catalog) (occurrence : Occurrence) : List String :=
  (occurrence.report? (catalog.judge occurrence.text)).toList

theorem flatten_linesAbout (occurrences : List Occurrence) :
    (occurrences.map catalog.linesAbout).flatten =
      (CheckReport.ofOccurrences catalog occurrences).lines := by
  rw [CheckReport.ofOccurrences, List.filterMap_map, List.filterMap_eq_flatMap_toList]
  rfl

theorem reports_linesAbout : catalog.Reports occurrence (catalog.linesAbout occurrence) := by
  rw [linesAbout, judge]
  split
  · next hparse => exact .malformed hparse
  · next hparse =>
    split
    · next hmeans => exact .unresolved hparse hmeans
    · next hmeans => exact .resolved hparse hmeans

/-! ### Resolving the same texts -/

theorem loaded_of_loadCatalog {project : Project} {config : Config}
    (h : project.loadCatalog config = .ok catalog) : catalog.Loaded := by
  simp only [Project.loadCatalog] at h
  split at h
  · cases h
  · cases h
  · exact ofText_loaded h

theorem execute_resolve {project : Project} {path : Option Text} {text : Text}
    (huses : project.Uses ⟨path, .resolve text⟩ catalog) :
    Invocation.execute project ⟨path, .resolve text⟩ =
      (catalog.idOf text).map fun id => ⟨0, unlines [id.str]⟩ := by
  obtain ⟨config, hconfig, hcatalog⟩ := huses
  simp only [Invocation.execute, bind, Except.bind, hconfig, hcatalog]
  cases catalog.idOf text <;> rfl

theorem idOf_of_parse_error {text : Text} {malformed : Malformed}
    (hparse : Reference.parse text = .error malformed) :
    catalog.idOf text = .error (.malformedReference text malformed) := by
  rw [idOf, readReference, hparse]
  rfl

theorem idOf_of_parse_ok {text : Text} {reference : Reference} {found : Option Text}
    (hparse : Reference.parse text = .ok reference)
    (hfound : catalog.encodeSymbol (catalog.resolveReference reference) = .ok found) :
    catalog.idOf text = found.elim (.error (.unresolved text.str)) .ok := by
  rw [idOf, readReference, hparse]
  simp only [bind, Except.bind, hfound, Except.mapError]
  cases found <;> rfl

/-- Resolving a text comes to what a check says of it, where what a reference means has an ID. -/
theorem Reports.agrees {lines : List String} (h : catalog.Reports occurrence lines)
    (hencodes : catalog.Encodes) {project : Project} {path : Option Text}
    (huses : project.Uses ⟨path, .resolve occurrence.text⟩ catalog) :
    Agrees lines (Invocation.execute project ⟨path, .resolve occurrence.text⟩) := by
  rw [execute_resolve huses]
  cases h with
  | malformed hparse =>
    rw [idOf_of_parse_error hparse, Except.map]
    constructor <;> simp
  | @unresolved reference hparse hmeans =>
    obtain ⟨found, hfound, hnone⟩ := hencodes.reference reference
    rw [hnone.mpr hmeans] at hfound
    rw [idOf_of_parse_ok hparse hfound, Option.elim, Except.map]
    constructor <;> simp
  | @resolved reference hparse hmeans =>
    obtain ⟨found, hfound, hnone⟩ := hencodes.reference reference
    obtain ⟨id, rfl⟩ := Option.ne_none_iff_exists'.mp fun heq => hmeans (hnone.mp heq)
    rw [idOf_of_parse_ok hparse hfound, Option.elim, Except.map]
    constructor <;> simp

end Catalog

/-! ### Checking a project -/

/-- A check of a project whose configuration, catalog and documents can be read succeeds, and accounts
for every reference. -/
theorem check_accounts {project : Project} {path : Option Text} {config : Config} {catalog : Catalog}
    {occurrences : List Occurrence} (hconfig : project.configWith path = .ok config)
    (hcatalog : project.loadCatalog config = .ok catalog)
    (hscan : project.scan config = .ok occurrences) (hcount : occurrences.length < 0x100000000)
    (hbounded : catalog.ListsBounded) :
    ∃ output blocks closing, Invocation.execute project ⟨path, .check⟩ = .ok output ∧
      catalog.Accounts occurrences output blocks closing := by
  have hencodes := (Catalog.loaded_of_loadCatalog hcatalog).encodes hbounded
  let report := CheckReport.ofOccurrences catalog occurrences
  refine ⟨⟨report.exitCode, unlines (report.lines ++ report.summary)⟩,
    occurrences.map catalog.linesAbout, report.summary, ?_, ?_, ?_, ?_, ?_⟩
  · simp only [Invocation.execute, bind, Except.bind, hconfig, hcatalog, hscan]
    rfl
  · rw [Catalog.flatten_linesAbout]
  · rw [List.forall₂_map_right_iff, List.forall₂_same]
    exact fun occurrence _ => Catalog.reports_linesAbout
  · rw [Catalog.flatten_linesAbout]
    exact (CheckReport.ofOccurrences_counted catalog hcount).closes
  · rw [List.forall₂_map_right_iff, List.forall₂_same]
    exact fun occurrence _ project path huses => Catalog.reports_linesAbout.agrees hencodes huses

/-- A project with a document that refers to a type, to nothing, and by no reference at all. -/
def referringProject : Project :=
  ⟨[⟨Config.default.catalog, Catalog.genericDocument.toUTF8⟩,
    ⟨['a', '.', 'm', 'd'], "cref='A`1'\ncref='B' cref='A('".toUTF8⟩], []⟩

def referringOccurrences : List Occurrence :=
  [⟨['a', '.', 'm', 'd'], 1, ['A', tick, '1']⟩, ⟨['a', '.', 'm', 'd'], 2, ['B']⟩,
    ⟨['a', '.', 'm', 'd'], 2, ['A', '(']⟩]

/-- The check of the project goes on after what it reports. -/
theorem check_accounts_referringProject : ∃ output blocks closing,
    Invocation.execute referringProject ⟨none, .check⟩ = .ok output ∧
      Catalog.genericCatalog.Accounts referringOccurrences output blocks closing ∧
      output.exitCode = 2 := by
  have hconfig : referringProject.configWith none = .ok Config.default :=
    eq_ok_of_toOption (by decide +kernel)
  have hcatalog : referringProject.loadCatalog Config.default = .ok Catalog.genericCatalog :=
    eq_ok_of_toOption (by decide +kernel)
  have hscan : referringProject.scan Config.default = .ok referringOccurrences :=
    eq_ok_of_toOption (by decide +kernel)
  have hbounded : Catalog.genericCatalog.ListsBounded := ⟨by decide +kernel, by decide +kernel⟩
  obtain ⟨output, blocks, closing, hexecute, haccounts⟩ :=
    check_accounts hconfig hcatalog hscan (by decide) hbounded
  refine ⟨output, blocks, closing, hexecute, haccounts, ?_⟩
  have hcode : (Invocation.execute referringProject ⟨none, .check⟩).toOption.map (·.exitCode) =
      some 2 := by decide +kernel
  rw [hexecute] at hcode
  exact Option.some.inj hcode

end DocRef

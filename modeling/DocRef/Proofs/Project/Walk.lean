import DocRef.Proofs.Project.Cref
import DocRef.Proofs.Text.ByteOrder
import Mathlib.Data.List.Forall2
import Mathlib.Data.List.Nodup

/-!
The walk through a project. A directory is walked depth first, by the names that stand in it, and a
directory in it is entered where its name stands (`Directory.walk`). So files come in the order of their
paths, compared component by component (`Path.Before`), and this is the order in which a project is
scanned. What is found depends on the files that carry references and on nothing else in the directory
(`Project.scan_canonical`).
-/

namespace DocRef

/-! ### The order of paths -/

namespace Path

/-- Whether a path comes before another one when their components are compared one after the other as
bytes. -/
def Before (first second : Text) : Prop :=
  (components first).map Text.utf8 < (components second).map Text.utf8

theorem bytes_injective : Function.Injective fun path => (components path).map Text.utf8 := by
  intro first second h
  have hcomponents := List.map_injective_iff.mpr Text.utf8_injective h
  rw [← Text.join_split '/' first, ← Text.join_split '/' second]
  exact congrArg (Text.join '/') hcomponents

theorem Before.ne {first second : Text} (h : Before first second) : first ≠ second := by
  rintro rfl
  exact List.lt_irrefl _ h

theorem ordered_iff {first second : Text} :
    ordered first second = true ↔ Before first second ∨ first = second := by
  rw [ordered, decide_eq_true_eq, List.le_iff_lt_or_eq]
  exact or_congr_right bytes_injective.eq_iff

theorem ordered_trans (first second third : Text) (hfirst : ordered first second = true)
    (hsecond : ordered second third = true) : ordered first third = true :=
  decide_eq_true (List.le_trans (of_decide_eq_true hfirst) (of_decide_eq_true hsecond))

theorem ordered_total (first second : Text) : (ordered first second || ordered second first) = true := by
  rw [Bool.or_eq_true, ordered, ordered, decide_eq_true_eq, decide_eq_true_eq]
  exact List.le_total _ _

theorem ordered_antisymm {first second : Text} (hfirst : ordered first second = true)
    (hsecond : ordered second first = true) : first = second :=
  bytes_injective (List.le_antisymm (of_decide_eq_true hfirst) (of_decide_eq_true hsecond))

/-- Below one directory, what stands under the earlier name comes first. -/
theorem before_of_names {within rest others : List Text} {name other path next : Text}
    (hpath : components path = within ++ name :: rest) (hnext : components next = within ++ other :: others)
    (h : name.utf8 < other.utf8) : Before path next := by
  rw [Before, hpath, hnext, List.map_append, List.map_append, List.map_cons, List.map_cons]
  exact List.append_left_lt (List.cons_lt_cons_iff.mpr (.inl h))

end Path

/-! ### Directories -/

/-- What stands in a directory, in any order: files, and directories with what stands in them. -/
inductive Directory
  | empty
  | file (name : Text) (bytes : ByteArray) (others : Directory)
  | directory (name : Text) (inner others : Directory)

namespace Directory

def names : Directory → List Text
  | empty => []
  | file name _ others => name :: others.names
  | directory name _ others => name :: others.names

/-- Whether the names in each directory are distinct, and none of them is written as a path. -/
def WellFormed : Directory → Prop
  | empty => True
  | file name _ others => '/' ∉ name ∧ name ∉ others.names ∧ others.WellFormed
  | directory name inner others =>
    '/' ∉ name ∧ name ∉ others.names ∧ inner.WellFormed ∧ others.WellFormed

/-- A file with a name in the directory that some components lead to. -/
def fileAt (within : List Text) (name : Text) (bytes : ByteArray) : ProjectFile :=
  ⟨Text.join '/' (within ++ [name]), bytes⟩

/-- All files below a directory that some components lead to, as they are listed. -/
def files (within : List Text) : Directory → List ProjectFile
  | empty => []
  | file name bytes others => fileAt within name bytes :: files within others
  | directory name inner others => files (within ++ [name]) inner ++ files within others

/-- What is visited under each name, in the order of the names by their bytes. -/
def byNames (visits : List (Text × List ProjectFile)) : List ProjectFile :=
  (visits.mergeSort fun first second => Text.byteOrdered first.1 second.1).flatMap Prod.snd

/-- What a walk visits under each name of a directory. -/
def visits (within : List Text) : Directory → List (Text × List ProjectFile)
  | empty => []
  | file name bytes others => (name, [fileAt within name bytes]) :: visits within others
  | directory name inner others =>
    (name, byNames (visits (within ++ [name]) inner)) :: visits within others

/-- The files below a directory, depth first, each directory by the names in it. -/
def walk (directory : Directory) : List ProjectFile :=
  byNames (directory.visits [])

variable {within : List Text} {directory : Directory}

theorem forall_mem_concat_notMem {name : Text} (hwithin : ∀ part ∈ within, '/' ∉ part) (hname : '/' ∉ name) :
    ∀ part ∈ within ++ [name], '/' ∉ part :=
  List.forall_mem_append.mpr ⟨hwithin, List.forall_mem_singleton.mpr hname⟩

theorem byNames_perm (visits : List (Text × List ProjectFile)) :
    (byNames visits).Perm (visits.flatMap Prod.snd) :=
  (List.mergeSort_perm _ _).flatMap_right _

/-- A walk visits each file once. -/
theorem visits_perm (directory : Directory) (within : List Text) :
    ((directory.visits within).flatMap Prod.snd).Perm (directory.files within) := by
  induction directory generalizing within with
  | empty => exact .refl _
  | file name bytes others ih => exact (ih within).cons _
  | directory name inner others hinner hothers =>
    exact ((byNames_perm _).trans (hinner _)).append (hothers within)

theorem visits_map_fst (directory : Directory) (within : List Text) :
    (directory.visits within).map Prod.fst = directory.names := by
  induction directory generalizing within with
  | empty => rfl
  | file name bytes others ih => exact congrArg (name :: ·) (ih within)
  | directory name inner others _ hothers => exact congrArg (name :: ·) (hothers within)

theorem WellFormed.names_nodup (h : directory.WellFormed) : directory.names.Nodup := by
  induction directory with
  | empty => exact List.nodup_nil
  | file name bytes others ih => exact List.nodup_cons.mpr ⟨h.2.1, ih h.2.2⟩
  | directory name inner others _ hothers => exact List.nodup_cons.mpr ⟨h.2.1, hothers h.2.2.2⟩

theorem WellFormed.visits_nodup (h : directory.WellFormed) (within : List Text) :
    ((directory.visits within).map Prod.fst).Nodup := by
  rw [visits_map_fst]
  exact h.names_nodup

/-- What is visited under a name has this name in its path, behind the components of the directory. -/
theorem WellFormed.components (h : directory.WellFormed) (hwithin : ∀ name ∈ within, '/' ∉ name) :
    ∀ visit ∈ directory.visits within, ∀ file ∈ visit.2,
      ∃ rest, Path.components file.path = within ++ visit.1 :: rest := by
  induction directory generalizing within with
  | empty => exact List.forall_mem_nil _
  | file name bytes others ih =>
    refine List.forall_mem_cons.mpr ⟨List.forall_mem_singleton.mpr ⟨[], ?_⟩, ih h.2.2 hwithin⟩
    exact Text.split_join (List.concat_ne_nil _ _) (forall_mem_concat_notMem hwithin h.1)
  | directory name inner others hinner hothers =>
    refine List.forall_mem_cons.mpr ⟨fun file hfile => ?_, hothers h.2.2.2 hwithin⟩
    have hinside := forall_mem_concat_notMem hwithin h.1
    obtain ⟨visit, hvisit, hmem⟩ := List.mem_flatMap.mp ((byNames_perm _).mem_iff.mp hfile)
    obtain ⟨rest, hrest⟩ := hinner h.2.2.1 hinside visit hvisit file hmem
    exact ⟨visit.1 :: rest, by rw [hrest, List.append_assoc, List.singleton_append]⟩

/-- What is visited by names comes in the order of paths, if it does so under each name. -/
theorem byNames_before {visits : List (Text × List ProjectFile)} (hnodup : (visits.map Prod.fst).Nodup)
    (hcomponents : ∀ visit ∈ visits, ∀ file ∈ visit.2,
      ∃ rest, Path.components file.path = within ++ visit.1 :: rest)
    (hbefore : ∀ visit ∈ visits, visit.2.Pairwise fun first second => Path.Before first.path second.path) :
    (byNames visits).Pairwise fun first second => Path.Before first.path second.path := by
  have hperm := List.mergeSort_perm visits fun first second => Text.byteOrdered first.1 second.1
  have hsorted : (visits.mergeSort fun first second => Text.byteOrdered first.1 second.1).Pairwise
      fun first second => Text.byteOrdered first.1 second.1 = true := by
    apply List.pairwise_mergeSort
    · exact fun _ _ _ => Text.byteOrdered_trans _ _ _
    · exact fun _ _ => Text.byteOrdered_total _ _
  have hdistinct := List.pairwise_map.mp ((hperm.map Prod.fst).nodup_iff.mpr hnodup)
  rw [byNames, List.pairwise_flatMap]
  refine ⟨fun visit hvisit => hbefore visit (hperm.mem_iff.mp hvisit), ?_⟩
  refine (hsorted.and hdistinct).imp_of_mem ?_
  rintro first second hfirst hsecond ⟨hle, hne⟩ file hfile next hnext
  obtain ⟨rest, hrest⟩ := hcomponents first (hperm.mem_iff.mp hfirst) file hfile
  obtain ⟨others, hothers⟩ := hcomponents second (hperm.mem_iff.mp hsecond) next hnext
  refine Path.before_of_names hrest hothers ?_
  exact Std.lt_of_le_of_ne (Text.byteOrdered_iff.mp hle) fun heq => hne (Text.utf8_injective heq)

theorem WellFormed.visits_before (h : directory.WellFormed) (hwithin : ∀ name ∈ within, '/' ∉ name) :
    ∀ visit ∈ directory.visits within,
      visit.2.Pairwise fun first second => Path.Before first.path second.path := by
  induction directory generalizing within with
  | empty => exact List.forall_mem_nil _
  | file name bytes others ih =>
    exact List.forall_mem_cons.mpr ⟨List.pairwise_singleton _ _, ih h.2.2 hwithin⟩
  | directory name inner others hinner hothers =>
    have hinside := forall_mem_concat_notMem hwithin h.1
    refine List.forall_mem_cons.mpr ⟨?_, hothers h.2.2.2 hwithin⟩
    exact byNames_before (h.2.2.1.visits_nodup _) (h.2.2.1.components hinside) (hinner h.2.2.1 hinside)

theorem walk_perm (directory : Directory) : directory.walk.Perm (directory.files []) :=
  (byNames_perm _).trans (visits_perm directory [])

/-- A walk visits the files in the order of their paths. -/
theorem WellFormed.walk_before (h : directory.WellFormed) :
    directory.walk.Pairwise fun first second => Path.Before first.path second.path :=
  byNames_before (h.visits_nodup []) (h.components nofun) (h.visits_before nofun)

end Directory

/-! ### Scanning -/

/-- Whether a configuration takes a file, by its extension and by its path. -/
def Config.takes (config : Config) (file : ProjectFile) : Bool :=
  (Path.extension? file.path).any config.scansExtension && config.shouldScan file.path

/-- What is reported of a file: all its attributes, from its start to its end. -/
def ProjectFile.Reports (file : ProjectFile) (reported : List Occurrence) : Prop :=
  ∃ text found, String.fromUTF8? file.bytes = some text ∧
    Citation.Leftmost (·.StandsIn text.toList) found ∧ reported = found.map (·.occurrence file.path)

namespace Project

/-- Whether no two files have the same path, as in a directory. -/
def PathsDistinct (project : Project) : Prop :=
  (project.files.map (·.path)).Nodup

/-- Whether occurrences are those of the files that a configuration takes, file after file. -/
structure Collects (project : Project) (config : Config) (visited : List ProjectFile)
    (reported : List (List Occurrence)) (occurrences : List Occurrence) : Prop where
  /-- Each of these files is visited once. -/
  visits : visited.Perm (project.files.filter config.takes)
  ordered : visited.Pairwise fun first second => Path.Before first.path second.path
  reports : List.Forall₂ ProjectFile.Reports visited reported
  grouped : occurrences = reported.flatten

variable {project other : Project} {config : Config} {visited files : List ProjectFile}

theorem scannedFiles_perm (project : Project) (config : Config) :
    (project.scannedFiles config).Perm (project.files.filter config.takes) :=
  List.mergeSort_perm _ _

theorem scannedFiles_ordered (project : Project) (config : Config) :
    (project.scannedFiles config).Pairwise fun first second =>
      Path.ordered first.path second.path = true := by
  apply List.pairwise_mergeSort
  · exact fun _ _ _ => Path.ordered_trans _ _ _
  · exact fun _ _ => Path.ordered_total _ _

/-- There is one order of the files that are taken in which their paths go up. -/
theorem scannedFiles_eq (hperm : visited.Perm (project.files.filter config.takes))
    (hbefore : visited.Pairwise fun first second => Path.Before first.path second.path) :
    project.scannedFiles config = visited := by
  have hpaths : (visited.map (·.path)).Nodup := List.pairwise_map.mpr (hbefore.imp Path.Before.ne)
  have hscanned := (scannedFiles_perm project config).trans hperm.symm
  refine hscanned.eq_of_pairwise (fun first second hfirst hsecond hforth hback => ?_)
    (scannedFiles_ordered project config) (hbefore.imp fun h => Path.ordered_iff.mpr (.inl h))
  exact List.inj_on_of_nodup_map hpaths (hscanned.mem_iff.mp hfirst) hsecond
    (Path.ordered_antisymm hforth hback)

theorem PathsDistinct.filter_nodup (h : project.PathsDistinct) (config : Config) :
    ((project.files.filter config.takes).map (·.path)).Nodup :=
  h.sublist (List.filter_sublist.map _)

theorem PathsDistinct.scannedFiles_before (h : project.PathsDistinct) (config : Config) :
    (project.scannedFiles config).Pairwise fun first second => Path.Before first.path second.path := by
  have hnodup := ((scannedFiles_perm project config).map (·.path)).nodup_iff.mpr (h.filter_nodup config)
  exact ((scannedFiles_ordered project config).and (List.pairwise_map.mp hnodup)).imp
    fun ⟨hordered, hne⟩ => (Path.ordered_iff.mp hordered).resolve_right hne

/-- Files that are not taken have no part in which files are scanned, and in which order. -/
theorem PathsDistinct.scannedFiles_congr (h : project.PathsDistinct) (hother : other.PathsDistinct)
    (hagree : ∀ file : ProjectFile, config.takes file = true →
      (file ∈ project.files ↔ file ∈ other.files)) :
    project.scannedFiles config = other.scannedFiles config := by
  refine scannedFiles_eq ((scannedFiles_perm other config).trans ?_) (hother.scannedFiles_before config)
  rw [List.perm_ext_iff_of_nodup (hother.filter_nodup config).of_map (h.filter_nodup config).of_map]
  intro file
  rw [List.mem_filter, List.mem_filter]
  exact and_congr_left fun htakes => (hagree file htakes).symm

/-- The files of a directory are scanned as a walk visits them. -/
theorem scannedFiles_eq_walk {directory : Directory} (h : directory.WellFormed)
    (hfiles : project.files.Perm (directory.files [])) :
    project.scannedFiles config = directory.walk.filter config.takes :=
  scannedFiles_eq ((directory.walk_perm.trans hfiles.symm).filter _) (h.walk_before.filter _)

/-! ### What is found -/

theorem exists_reports (file : ProjectFile) {text : String} (h : String.fromUTF8? file.bytes = some text) :
    file.Reports (Occurrence.ofText file.path text.toList) := by
  obtain ⟨found, hreported, hfound⟩ :=
    Citation.exists_occurrences file.path (Text.lines text.toList) 0
  refine ⟨text, found, h, hfound.congr fun citation => ?_, hreported⟩
  rw [Citation.standsIn_iff, Citation.StandsAmong, Nat.sub_zero, and_iff_right (Nat.zero_le _)]

/-- What is found in some files is what each of them reports, one behind the other. -/
theorem exists_reported {occurrences : List Occurrence} (h : occurrencesIn files = .ok occurrences) :
    ∃ reported, List.Forall₂ ProjectFile.Reports files reported ∧ occurrences = reported.flatten := by
  induction files generalizing occurrences with
  | nil =>
    cases h
    exact ⟨[], .nil, rfl⟩
  | cons file files ih =>
    rw [occurrencesIn] at h
    split at h
    · cases h
    · next text htext =>
      cases hrest : occurrencesIn files with
      | error failure =>
        rw [hrest] at h
        cases h
      | ok rest =>
        rw [hrest] at h
        cases h
        obtain ⟨reported, hreported, rfl⟩ := ih hrest
        exact ⟨_ :: reported, .cons (exists_reports file htext) hreported, rfl⟩

/-- Files are read if and only if all of them are texts. -/
theorem exists_occurrencesIn_iff : (∃ occurrences, occurrencesIn files = .ok occurrences) ↔
    ∀ file ∈ files, ∃ text, String.fromUTF8? file.bytes = some text := by
  induction files with
  | nil => exact ⟨fun _ => List.forall_mem_nil _, fun _ => ⟨[], rfl⟩⟩
  | cons file files ih =>
    rw [List.forall_mem_cons, ← ih, occurrencesIn]
    cases String.fromUTF8? file.bytes with
    | none => exact ⟨nofun, nofun⟩
    | some text =>
      cases occurrencesIn files with
      | error failure => exact ⟨nofun, nofun⟩
      | ok rest => exact ⟨fun _ => ⟨⟨text, rfl⟩, rest, rfl⟩, fun _ => ⟨_, rfl⟩⟩

/-- Files that a configuration does not take have no part in a scan. The files that it takes are scanned as a
walk through their directory visits them, each of them once and in the order of the components of their
paths; and what is found in a file comes in the order in which it stands there. The scan fails only if one
of them is no text. -/
theorem scan_canonical (config : Config) :
    (∀ project other : Project, project.PathsDistinct → other.PathsDistinct →
      (∀ file : ProjectFile, config.takes file = true →
        (file ∈ project.files ↔ file ∈ other.files)) →
      project.scan config = other.scan config) ∧
    (∀ (project : Project) (directory : Directory), directory.WellFormed →
      project.files.Perm (directory.files []) →
      project.PathsDistinct ∧
        project.scan config = occurrencesIn (directory.walk.filter config.takes)) ∧
    (∀ project : Project, (∃ occurrences, project.scan config = .ok occurrences) ↔
      ∀ file ∈ project.files, config.takes file = true →
        ∃ text, String.fromUTF8? file.bytes = some text) ∧
    ∀ (project : Project) (occurrences : List Occurrence), project.PathsDistinct →
      project.scan config = .ok occurrences →
      ∃ visited reported, project.Collects config visited reported occurrences := by
  refine ⟨fun project other h hother hagree => ?_, fun project directory h hfiles => ⟨?_, ?_⟩,
    fun project => ?_, fun project occurrences h hscan => ?_⟩
  · exact congrArg occurrencesIn (h.scannedFiles_congr hother hagree)
  · have hnodup := List.pairwise_map.mpr (h.walk_before.imp Path.Before.ne)
    exact ((directory.walk_perm.trans hfiles.symm).map ProjectFile.path).nodup_iff.mp hnodup
  · exact congrArg occurrencesIn (scannedFiles_eq_walk h hfiles)
  · rw [scan, exists_occurrencesIn_iff]
    simp only [(scannedFiles_perm project config).mem_iff, List.mem_filter, and_imp]
  · obtain ⟨reported, hreported, hoccurrences⟩ := exists_reported hscan
    exact ⟨project.scannedFiles config, reported, scannedFiles_perm project config,
      h.scannedFiles_before config, hreported, hoccurrences⟩

/-- A directory with a document on each of two levels, and with a file that is neither a document nor a
text. -/
def draftDirectory : Directory :=
  .file "a.md".toList "cref='C'".toUTF8
    (.directory ['a'] (.file "x.bin".toList ⟨#[0xff]⟩
      (.file "b.md".toList "cref='B'".toUTF8 .empty)) .empty)

def draftProject : Project := ⟨draftDirectory.files [], []⟩

/-- The documents alone, in another order. -/
def documentProject : Project :=
  ⟨[⟨"a/b.md".toList, "cref='B'".toUTF8⟩, ⟨"a.md".toList, "cref='C'".toUTF8⟩], []⟩

def draftOccurrences : List Occurrence := [⟨"a/b.md".toList, 1, ['B']⟩, ⟨"a.md".toList, 1, ['C']⟩]

/-- The walk goes through `a` before it comes to `a.md`. -/
theorem scan_canonical_drafts : draftDirectory.WellFormed ∧ draftProject.PathsDistinct ∧
    documentProject.PathsDistinct ∧ draftProject.scan Config.default = .ok draftOccurrences ∧
    documentProject.scan Config.default = draftProject.scan Config.default ∧
    draftProject.scan Config.default =
      occurrencesIn (draftDirectory.walk.filter Config.default.takes) ∧
    ∃ visited reported, draftProject.Collects Config.default visited reported draftOccurrences := by
  obtain ⟨hcongr, hwalk, -, hcollects⟩ := scan_canonical Config.default
  have hdirectory : draftDirectory.WellFormed := by
    simp [draftDirectory, Directory.WellFormed, Directory.names]
  obtain ⟨hdraft, hscan⟩ := hwalk draftProject draftDirectory hdirectory (.refl _)
  have hdocument : documentProject.PathsDistinct := by
    unfold PathsDistinct
    decide
  have hsame : documentProject.scan Config.default = draftProject.scan Config.default := by
    refine hcongr _ _ hdocument hdraft fun file htakes => ?_
    have hfiles : draftProject.files = [⟨"a.md".toList, "cref='C'".toUTF8⟩, ⟨"a/x.bin".toList, ⟨#[0xff]⟩⟩,
      ⟨"a/b.md".toList, "cref='B'".toUTF8⟩] := rfl
    simp only [hfiles, documentProject, List.mem_cons, List.not_mem_nil, or_false]
    constructor
    · rintro (rfl | rfl) <;> simp
    · rintro (rfl | rfl | rfl)
      · simp
      · exact absurd htakes (by decide)
      · simp
  have hscanned : documentProject.scannedFiles Config.default = documentProject.files := by
    refine scannedFiles_eq (.of_eq (List.filter_eq_self.mpr (by decide)).symm) ?_
    unfold Path.Before
    decide
  have hfound : documentProject.scan Config.default = .ok draftOccurrences := by
    rw [scan, hscanned]
    decide +kernel
  rw [hsame] at hfound
  exact ⟨hdirectory, hdraft, hdocument, hfound, hsame, hscan, hcollects draftProject _ hdraft hfound⟩

end Project

end DocRef

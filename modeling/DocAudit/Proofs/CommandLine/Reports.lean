import DocAudit.Files.Outlines
import DocAudit.Proofs.CommandLine.Outcomes
import DocAudit.Proofs.Finding.Places
import DocAudit.Proofs.Markup.Scan

/-!
# What a run reports

A run that checks its target reports the findings on all files that are found there, when every one of
them can be read and has a tree. Files without a tree are left out of the report, and the run fails after
it.

* `Code.SourceFile.IsUnmarked`: no doc comment begins with a byte order mark, so all can be read;
* `Surroundings.report`: the findings on files, in the order of reports;
* `Surroundings.MakesTrees`: the parser makes a tree of every file;
* `reports_run`: a run reports the findings on its files;
* `reportsRest_run`: a run without a tree of some file reports the findings on the others.
-/

namespace DocAudit

namespace Code.SourceFile

/-- The markup of no doc comment that is looked at begins with a byte order mark. -/
def IsUnmarked (file : SourceFile) : Prop :=
  ∀ detector : Detector, ∀ doc ∈ detector.docsRead file, doc.markup.head? ≠ some '\uFEFF'

/-- These are the doc comments of the file, and those of its declarations. -/
theorem isUnmarked_iff {file : SourceFile} :
    file.IsUnmarked ↔ (∀ doc ∈ file.docComments, doc.markup.head? ≠ some '\uFEFF') ∧
      ∀ doc ∈ file.declarations.filterMap (·.doc), doc.markup.head? ≠ some '\uFEFF' := by
  refine ⟨fun h => ⟨h .wellFormed, h .basic⟩, fun h detector => ?_⟩
  cases detector with
  | wellFormed => exact h.1
  | _ => exact h.2

theorem IsUnmarked.isReadable {file : SourceFile} (h : file.IsUnmarked) : file.isReadable = true := by
  rw [SourceFile.isReadable, List.all_eq_true]
  intro detector _
  rw [Detector.canRead, List.all_eq_true]
  intro doc hdoc
  rw [DocComment.isReadable, doc.forest_eq]
  exact Markup.Forest.isAligned_read (h detector doc hdoc)

end Code.SourceFile

namespace CommandLine

/-! ## Files one after the other -/

section Traversal

variable {α β ε : Type} {f : α → Except ε β} {xs : List α} {error : ε}

theorem mapM_eq_ok {g : α → β} (h : ∀ x ∈ xs, f x = .ok (g x)) : xs.mapM f = .ok (xs.map g) := by
  induction xs with
  | nil => rfl
  | cons x xs ih =>
    obtain ⟨hx, hxs⟩ := List.forall_mem_cons.1 h
    rw [List.mapM_cons, hx, ih hxs]
    rfl

/-- The error of a traversal is that of some step, and all steps before it have values. -/
theorem exists_of_mapM_eq_error (h : xs.mapM f = .error error) :
    ∃ earlier x later, xs = earlier ++ x :: later ∧ (∀ y ∈ earlier, ∃ z, f y = .ok z) ∧
      f x = .error error := by
  induction xs with
  | nil => cases h
  | cons first xs ih =>
    rw [List.mapM_cons] at h
    cases hfirst : f first with
    | error other =>
      -- The traversal ends here.
      rw [hfirst] at h
      cases h
      exact ⟨[], first, xs, rfl, by simp, hfirst⟩
    | ok value =>
      cases hxs : xs.mapM f with
      | ok values =>
        rw [hfirst, hxs] at h
        cases h
      | error other =>
        rw [hfirst, hxs] at h
        cases h
        obtain ⟨earlier, x, later, rfl, hearlier, hx⟩ := ih hxs
        exact ⟨first :: earlier, x, later, rfl, List.forall_mem_cons.2 ⟨⟨value, hfirst⟩, hearlier⟩, hx⟩

/-- One error ends a traversal, wherever it is. -/
theorem mapM_ne_ok {x : α} (hmem : x ∈ xs) (h : f x = .error error) (ys : List β) :
    xs.mapM f ≠ .ok ys := by
  induction xs generalizing ys with
  | nil => cases hmem
  | cons first xs ih =>
    rw [List.mapM_cons]
    rcases List.mem_cons.1 hmem with rfl | hmem
    · rw [h]
      exact nofun
    · cases f first with
      | error _ => exact nofun
      | ok _ =>
        -- The error is further behind.
        cases hxs : xs.mapM f with
        | error _ => exact nofun
        | ok others => exact absurd hxs (ih hmem others)

end Traversal

namespace Surroundings

variable (surroundings : Surroundings)

/-- The tree of the file at a path. There is none when the file cannot be read, or without a tree of its
text. -/
def treeAt? (path : String) : Option Code.SourceFile :=
  match Sources.read surroundings.files path with
  | .ok text => surroundings.parse text
  | .error _ => none

/-- The findings on the file at a path. There are none without a tree. -/
def findingsAt (options : Options) (path : String) : List Finding :=
  ((surroundings.treeAt? path).map (·.findings options path)).getD []

/-- The findings on the files at paths, in the order of reports. -/
def report (options : Options) (paths : List String) : List Finding :=
  Finding.sort (paths.flatMap (surroundings.findingsAt options))

variable {surroundings} {options : Options} {path text : String} {file : Code.SourceFile}

theorem treeAt?_of_read (hread : Sources.read surroundings.files path = .ok text) :
    surroundings.treeAt? path = surroundings.parse text := by
  rw [treeAt?, hread]

theorem findingsAt_of_treeAt? (h : surroundings.treeAt? path = some file) :
    surroundings.findingsAt options path = file.findings options path := by
  rw [findingsAt, h]
  rfl

/-- A finding on the file at a path has that path. -/
theorem path_of_mem_findingsAt {finding : Finding}
    (h : finding ∈ surroundings.findingsAt options path) : finding.path = path := by
  unfold findingsAt at h
  cases htree : surroundings.treeAt? path with
  | none => simp [htree] at h
  | some file =>
    rw [htree] at h
    exact Code.SourceFile.path_of_mem_findings h

variable (surroundings) in
/-- The parser is set up and makes a tree of every text that the files at these paths have. A parser that
is set up should do so, but may say that there is no tree. -/
structure MakesTrees (paths : List String) : Prop where
  parserError_eq : surroundings.parserError = none
  exists_tree : ∀ path ∈ paths, ∀ text, Sources.read surroundings.files path = .ok text →
    ∃ file, surroundings.parse text = some file

theorem makesTrees_of_treeAt? {paths : List String} (hparser : surroundings.parserError = none)
    (h : ∀ path ∈ paths, (surroundings.treeAt? path).isSome = true) :
    surroundings.MakesTrees paths where
  parserError_eq := hparser
  exists_tree path hpath text htext := by
    rw [← treeAt?_of_read htext]
    exact Option.isSome_iff_exists.1 (h path hpath)

/-- Surroundings whose sources are comments in front of an empty class. There are no trees of other
texts. -/
def ofComments (files : FileSystem) : Surroundings where
  files
  parse text := (Text.dropTail? "\nclass C{}".toList text.toList).map fun comment =>
    .commentedClass (String.ofList comment)

end Surroundings

/-! ## Reports -/

/-- An outcome is that of a run that reports findings and fails after that. -/
structure Outcome.ReportsRest (outcome : Outcome) (json : Bool) (findings : List Finding) : Prop where
  code_eq : outcome.code = 2
  output_eq : outcome.output = Run.reportText json findings

section Effects

variable {results : List (Option (List Finding))} (log : Option (List LogEntry))
  (arguments : Arguments) (fileCount : Nat)

theorem reports_ofEffect (h : none ∉ results) :
    (Outcome.ofEffect log (Run.reportEffect arguments results fileCount)).Reports arguments.json
      (Finding.sort (results.flatMap (·.getD []))) fileCount := by
  have hcount : results.countP (·.isNone) = 0 := by
    rw [List.countP_eq_zero]
    intro result hresult hnone
    obtain rfl := Option.isNone_iff_eq_none.1 hnone
    exact h hresult
  rw [Run.reportEffect, if_pos hcount]
  exact ⟨if_congr List.length_eq_zero_iff rfl rfl, rfl, rfl⟩

theorem reportsRest_ofEffect (h : none ∈ results) :
    (Outcome.ofEffect log (Run.reportEffect arguments results fileCount)).ReportsRest arguments.json
      (Finding.sort (results.flatMap (·.getD []))) := by
  have hcount : results.countP (·.isNone) ≠ 0 := by
    rw [Ne, List.countP_eq_zero]
    exact fun hall => hall none h rfl
  rw [Run.reportEffect, if_neg hcount]
  exact ⟨rfl, rfl⟩

end Effects

section Results

variable {surroundings : Surroundings} {arguments : Arguments} {options : Options}
  {path text : String} {file : Code.SourceFile} {paths words : List String}

theorem check_of_error {cause : SourceError}
    (hread : Sources.read surroundings.files path = .error cause) :
    Run.check surroundings options path = .error (.sources cause) := by
  rw [Run.check, hread]
  rfl

theorem check_of_none (hread : Sources.read surroundings.files path = .ok text)
    (hnone : surroundings.parse text = none) : Run.check surroundings options path = .ok none := by
  simp [Run.check, hread, Except.mapError, bind, Except.bind, hnone]

theorem check_of_some (hread : Sources.read surroundings.files path = .ok text)
    (hfile : surroundings.parse text = some file) :
    Run.check surroundings options path =
      if file.isReadable then .ok (some (file.findings options path))
      else .error (.misaligned path) := by
  simp [Run.check, hread, Except.mapError, bind, Except.bind, hfile]

theorem check_eq_ok (hread : Sources.read surroundings.files path = .ok text)
    (hreadable : ∀ file, surroundings.parse text = some file → file.isReadable = true) :
    Run.check surroundings options path =
      .ok ((surroundings.treeAt? path).map (·.findings options path)) := by
  rw [Surroundings.treeAt?_of_read hread]
  cases hfile : surroundings.parse text with
  | none => rw [check_of_none hread hfile, Option.map_none]
  | some file => rw [check_of_some hread hfile, if_pos (hreadable file hfile), Option.map_some]

theorem exists_read_of_check {findings : Option (List Finding)}
    (h : Run.check surroundings options path = .ok findings) :
    ∃ text, Sources.read surroundings.files path = .ok text := by
  cases hread : Sources.read surroundings.files path with
  | ok text => exact ⟨text, rfl⟩
  | error cause => cases h.symm.trans (check_of_error hread)

/-- A check that breaks a run off comes to a tree that cannot be read. -/
theorem exists_tree_of_check {error : RunError}
    (h : Run.check surroundings options path = .error error) (hcode : error.code ≠ 2) :
    ∃ text file, Sources.read surroundings.files path = .ok text ∧
      surroundings.parse text = some file ∧ file.isReadable = false := by
  cases hread : Sources.read surroundings.files path with
  | error cause =>
    obtain rfl := Except.error.inj (h.symm.trans (check_of_error hread))
    exact absurd rfl hcode
  | ok text =>
    cases hfile : surroundings.parse text with
    | none => cases h.symm.trans (check_of_none hread hfile)
    | some file =>
      refine ⟨text, file, rfl, hfile, ?_⟩
      rw [check_of_some hread hfile] at h
      by_contra hreadable
      rw [if_pos (by simpa using hreadable)] at h
      cases h

variable (hdump : arguments.dumpTree = false) (hparser : surroundings.parserError = none)
  (hoptions : Run.loadOptions surroundings.files arguments.config = .ok options)
  (hfind : Sources.find surroundings.files arguments.target = .ok paths)
include hdump hparser hoptions hfind

/-- When all files can be read, the effect of a run is that of a report on those that have trees. -/
theorem effect_eq_reportEffect
    (hread : ∀ path ∈ paths, ∃ text, Sources.read surroundings.files path = .ok text ∧
      ∀ file, surroundings.parse text = some file → file.isReadable = true) :
    Run.effect surroundings arguments =
      Run.reportEffect arguments
        (paths.map fun path => (surroundings.treeAt? path).map (·.findings options path))
        paths.length := by
  have hcheck : ∀ path ∈ paths, Run.check surroundings options path =
      .ok ((surroundings.treeAt? path).map (·.findings options path)) := by
    intro path hpath
    obtain ⟨text, htext, hreadable⟩ := hread path hpath
    exact check_eq_ok htext hreadable
  have hstate : Run.parserState surroundings = .ok () := by rw [Run.parserState, hparser]
  rw [Run.effect, hoptions, Effect.quiet_ok_bind, if_neg (by simp [hdump]), Run.auditEffect, hfind,
    Except.mapError, Effect.quiet_ok_bind, hstate, Effect.quiet_ok_bind, mapM_eq_ok hcheck,
    Effect.quiet_ok_bind]

variable (hparse : Arguments.parse words = .ok arguments) (hlog : surroundings.logError = none)
include hparse hlog

/-- When there is no tree of some file, a run reports the findings on the other files before it fails. -/
theorem reportsRest_run
    (hread : ∀ path ∈ paths, ∃ text, Sources.read surroundings.files path = .ok text ∧
      ∀ file, surroundings.parse text = some file → file.isReadable = true)
    (hpath : path ∈ paths) (hnone : surroundings.treeAt? path = none) (program : String) :
    (run surroundings program words).ReportsRest arguments.json
      (surroundings.report options paths) := by
  -- A file without a tree stands among the results, and is counted after the report.
  have hskipped : none ∈
      paths.map fun path => (surroundings.treeAt? path).map (·.findings options path) :=
    List.mem_map.2 ⟨path, hpath, by rw [hnone, Option.map_none]⟩
  obtain ⟨log, hrun⟩ := exists_run_eq hparse hlog program
  have hreports := reportsRest_ofEffect log arguments paths.length hskipped
  rw [List.flatMap_map] at hreports
  rwa [hrun, effect_eq_reportEffect hdump hparser hoptions hfind hread]

omit hparser

/-- A run reports the findings on all files that it finds, when there are trees of all of them and their
doc comments can be read. -/
theorem reports_run_of_isReadable (htrees : surroundings.MakesTrees paths)
    (hread : ∀ path ∈ paths, ∃ text, Sources.read surroundings.files path = .ok text ∧
      ∀ file, surroundings.parse text = some file → file.isReadable = true) (program : String) :
    (run surroundings program words).Reports arguments.json (surroundings.report options paths)
      paths.length := by
  have hnone : none ∉
      paths.map fun path => (surroundings.treeAt? path).map (·.findings options path) := by
    intro hmem
    obtain ⟨path, hpath, hnone⟩ := List.mem_map.1 hmem
    obtain ⟨text, htext, -⟩ := hread path hpath
    obtain ⟨file, hfile⟩ := htrees.exists_tree path hpath text htext
    rw [Surroundings.treeAt?_of_read htext, hfile] at hnone
    cases hnone
  obtain ⟨log, hrun⟩ := exists_run_eq hparse hlog program
  have hreports := reports_ofEffect log arguments paths.length hnone
  rw [List.flatMap_map] at hreports
  rwa [hrun, effect_eq_reportEffect hdump htrees.parserError_eq hoptions hfind hread]

/-- So it does without byte order marks. -/
theorem reports_run (htrees : surroundings.MakesTrees paths)
    (hread : ∀ path ∈ paths, ∃ text, Sources.read surroundings.files path = .ok text ∧
      ∀ file, surroundings.parse text = some file → file.IsUnmarked) (program : String) :
    (run surroundings program words).Reports arguments.json (surroundings.report options paths)
      paths.length := by
  refine reports_run_of_isReadable hdump hoptions hfind hparse hlog htrees ?_ program
  intro path hpath
  obtain ⟨text, htext, hmark⟩ := hread path hpath
  exact ⟨text, htext, fun file hfile => (hmark file hfile).isReadable⟩

end Results

end CommandLine
end DocAudit

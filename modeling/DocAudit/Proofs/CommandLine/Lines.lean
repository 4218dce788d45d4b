import DocAudit.Proofs.CommandLine.Reports
import DocAudit.Proofs.Files.Discovery
import DocAudit.Proofs.Finding.OneLine

/-!
# Reports line by line

Without `--json` a run prints its findings one after the other, each with a line feed behind it. What it
prints has as many lines as there are findings, when the paths of the files and the words that messages
take from them are on one line each. A value of an attribute that goes on over two lines makes two lines
of a finding.

* `Outcome.PrintsLines`: what a run prints has exactly the findings for lines;
* `Surroundings.ReportsLines`: which findings are on one line, and what a run then prints;
* `Surroundings.reportsLines`: this is so whatever the files.
-/

namespace DocAudit

open Text

/-- Lines with line feeds behind them are what is between the line feeds. -/
theorem Text.splitAt_lines {lines : List (List Char)} (h : ∀ line ∈ lines, IsOneLine line) :
    splitAt '\n' (lines.flatMap (· ++ ['\n'])) = lines ++ [[]] := by
  induction lines with
  | nil => rfl
  | cons line lines ih =>
    obtain ⟨hline, hlines⟩ := List.forall_mem_cons.1 h
    rw [List.flatMap_cons, List.append_assoc, List.singleton_append, splitAt_append_cons hline.1,
      ih hlines, List.cons_append]

theorem Text.count_lines {lines : List (List Char)} (h : ∀ line ∈ lines, IsOneLine line) :
    (lines.flatMap (· ++ ['\n'])).count '\n' = lines.length := by
  induction lines with
  | nil => rfl
  | cons line lines ih =>
    obtain ⟨hline, hlines⟩ := List.forall_mem_cons.1 h
    rw [List.flatMap_cons, List.count_append, List.count_append, ih hlines,
      List.count_eq_zero.2 hline.1, List.count_singleton_self, List.length_cons]
    omega

namespace CommandLine

/-- An outcome shows each of the findings on a line of its own. -/
structure Outcome.PrintsLines (outcome : Outcome) (findings : List Finding) : Prop where
  /-- No finding breaks a line. -/
  isOneLine : ∀ finding ∈ findings, IsOneLine finding.display.toList
  /-- The lines of the output are the findings; behind the last line feed comes nothing. -/
  splitAt_output : splitAt '\n' outcome.output.toList =
    findings.map (fun finding => finding.display.toList) ++ [[]]
  /-- So there are as many line feeds as findings, -/
  count_output : outcome.output.toList.count '\n' = findings.length
  /-- and no carriage returns. -/
  notMem_output : '\r' ∉ outcome.output.toList

namespace Outcome

variable {outcome : Outcome} {findings : List Finding} {fileCount : Nat}

theorem Reports.toList_output (h : outcome.Reports false findings fileCount) :
    outcome.output.toList =
      (findings.map fun finding => finding.display.toList).flatMap (· ++ ['\n']) := by
  have houtput := h.output_eq
  rw [Run.reportText, if_neg Bool.false_ne_true] at houtput
  rw [houtput, String.toList_join, List.flatMap_map, List.flatMap_map]
  exact List.flatMap_congr fun finding _ => String.toList_append

/-- A report line by line has a line for each finding that is on one line. -/
theorem Reports.printsLines (h : outcome.Reports false findings fileCount)
    (hlines : ∀ finding ∈ findings, IsOneLine finding.display.toList) :
    outcome.PrintsLines findings := by
  have hmap : ∀ line ∈ findings.map fun finding => finding.display.toList, IsOneLine line := by
    intro line hline
    obtain ⟨finding, hfinding, rfl⟩ := List.mem_map.1 hline
    exact hlines finding hfinding
  refine ⟨hlines, ?_, ?_, ?_⟩ <;> rw [h.toList_output]
  · exact splitAt_lines hmap
  · rw [count_lines hmap, List.length_map]
  · intro hmem
    obtain ⟨line, hline, hmem⟩ := List.mem_flatMap.1 hmem
    rcases List.mem_append.1 hmem with hmem | hmem
    · exact (hmap line hline).2 hmem
    · cases List.mem_singleton.1 hmem

end Outcome

namespace Surroundings

/-- Findings are on one line unless a word of the source is not, and a run that prints them line by line
gives each of them one. -/
structure ReportsLines (surroundings : Surroundings) : Prop where
  /-- A finding is on one line when its path is, and all details are that its message shows. -/
  display_iff : ∀ (file : Code.SourceFile) (options : Options) (path : String),
    ∀ finding ∈ file.findings options path, IsOneLine finding.display.toList ↔
      IsOneLine path.toList ∧ ∀ detail ∈ finding.shownDetails, IsOneLine detail.toList
  /-- A detail that is not on one line is a word of the source. -/
  mem_words : ∀ (file : Code.SourceFile) (options : Options) (path : String),
    ∀ finding ∈ file.findings options path, ∀ detail ∈ finding.details,
      IsOneLine detail.toList ∨ detail ∈ file.words
  /-- So all findings are on one line, if the path is and all words of the source. -/
  isOneLine_display : ∀ (file : Code.SourceFile) (options : Options) (path : String),
    file.KeepsToLines → IsOneLine path.toList →
      ∀ finding ∈ file.findings options path, IsOneLine finding.display.toList
  /-- If this is so of all files that a run checks, its report has a line for each finding. -/
  printsLines : ∀ (program : String) (words : List String) (arguments : Arguments)
    (options : Options) (paths : List String), Arguments.parse words = .ok arguments →
      arguments.dumpTree = false → arguments.json = false → surroundings.logError = none →
      Run.loadOptions surroundings.files arguments.config = .ok options →
      Sources.find surroundings.files arguments.target = .ok paths →
      surroundings.MakesTrees paths →
      (∀ path ∈ paths, IsOneLine path.toList ∧
        ∃ text, Sources.read surroundings.files path = .ok text ∧
          ∀ file, surroundings.parse text = some file →
            file.isReadable = true ∧ file.KeepsToLines) →
      (run surroundings program words).PrintsLines (surroundings.report options paths)

/-- Reports are made of lines, but for what the sources break. -/
theorem reportsLines (surroundings : Surroundings) : surroundings.ReportsLines where
  display_iff _ _ _ _ h := Code.SourceFile.isOneLine_display_iff h
  mem_words _ _ _ _ h _ := Code.SourceFile.isOneLine_or_mem_words h
  isOneLine_display _ _ _ hfile hpath _ := hfile.isOneLine_display hpath
  printsLines := by
    intro program words arguments options paths hparse hdump hjson hlog hoptions hfind htrees hread
    have hreports := reports_run_of_isReadable hdump hoptions hfind hparse hlog htrees
      (fun path hpath => (hread path hpath).2.imp fun _ htext =>
        ⟨htext.1, fun file hfile => (htext.2 file hfile).1⟩) program
    rw [hjson] at hreports
    refine hreports.printsLines fun finding hfinding => ?_
    -- A finding of the report is one of the findings on some file.
    obtain ⟨path, hpath, hfinding⟩ := List.mem_flatMap.1 (List.mem_mergeSort.1 hfinding)
    obtain ⟨hline, text, htext, hlines⟩ := hread path hpath
    obtain ⟨file, hfile⟩ := htrees.exists_tree path hpath text htext
    rw [findingsAt_of_treeAt? ((treeAt?_of_read htext).trans hfile)] at hfinding
    exact (hlines file hfile).2.isOneLine_display hline hfinding

open FileTree in
/-- A run with three findings prints three lines. A target that goes on over two lines breaks the line of
a finding. -/
theorem reportsLines_brokenTarget :
    let entries := [("a.cs", file (some "/// <param>x\nclass C{}"))]
    let surroundings := ofComments (directory entries)
    let broken := Code.SourceFile.commentedClass "/** <exception cref='A\nB'/> */"
    (run surroundings "audit" ["."]).PrintsLines (surroundings.report {} ["./a.cs"]) ∧
      (surroundings.report {} ["./a.cs"]).length = 3 ∧
      ¬broken.KeepsToLines ∧ ∃ finding ∈ broken.findings {} "a.cs",
        finding.message = "<exception> description for 'A\nB' is empty." ∧
          ¬IsOneLine finding.display.toList := by
  intro entries surroundings broken
  have hparse : Arguments.parse ["."] = .ok ⟨".", none, false, false, false⟩ := by decide +kernel
  have hfiles : surroundings.files = FileSystem.around (directory entries) := rfl
  have htarget : surroundings.files.resolve "." = .ok (directory entries) := by
    rw [hfiles, FileSystem.resolve_around (by decide) (by decide),
      show Path.parts "." = [Path.here] by decide +kernel, walk_here, walk_nil]
  have hbelow : Sources.below entries = [["a.cs"]] := by
    simp [entries, Sources.below, isFile, show Sources.isSourceName "a.cs" = true by decide +kernel]
  have hfind : Sources.find surroundings.files "." = .ok ["./a.cs"] :=
    Sources.find_of_pairwise htarget (by simp [entries, Sources.isOpen]) hbelow (by decide +kernel)
  have hread : Sources.read surroundings.files "./a.cs" = .ok "/// <param>x\nclass C{}" := by
    rw [Sources.read, FileSystem.read, hfiles, FileSystem.resolve_around (by decide) (by decide),
      show Path.parts "./a.cs" = [Path.here, "a.cs"] by decide +kernel, walk_here,
      walk_file (by decide) (by decide) rfl rfl]
    rfl
  have htree : surroundings.treeAt? "./a.cs" = some (.commentedClass "/// <param>x") :=
    treeAt?_of_read hread
  have htrees : surroundings.MakesTrees ["./a.cs"] :=
    makesTrees_of_treeAt? rfl (by simp [htree])
  have hprints := (reportsLines surroundings).printsLines "audit" ["."] _ {} ["./a.cs"] hparse rfl
    rfl rfl rfl hfind htrees (by
      intro path hpath
      obtain rfl := List.mem_singleton.1 hpath
      refine ⟨by decide +kernel, _, hread, fun file hparsed => ?_⟩
      cases hparsed
      exact ⟨by decide +kernel, by decide +kernel⟩)
  have hlength : (surroundings.report {} ["./a.cs"]).length = 3 := by
    rw [report, Finding.sort, List.length_mergeSort, List.flatMap_singleton,
      findingsAt_of_treeAt? htree]
    decide +kernel
  refine ⟨hprints, hlength, by decide +kernel, ?_⟩
  decide +kernel

end Surroundings

end CommandLine
end DocAudit

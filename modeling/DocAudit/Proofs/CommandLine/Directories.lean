import DocAudit.Proofs.CommandLine.Arguments
import DocAudit.Proofs.CommandLine.Reports
import DocAudit.Proofs.Files.Discovery
import DocAudit.Proofs.Finding.Merging

/-!
# Runs over directories

A run over a directory tells what runs over its files tell, one file at a time. The files are found in
the order of the parts of their paths, and reported in the order of the bytes: these are different
orders, since a hyphen comes in front of a slash. One stable sort of all findings does it, because the
findings on a file have its path, which is that of no other file.

* `Finding.sort_flatMap`: findings on files of different paths, sorted together and file by file;
* `Surroundings.AddsUp`: what runs over a directory and over its files have to do with each other;
* `Surroundings.exists_addsUp`: that is how it is for all directories whose files can be read.
-/

namespace DocAudit

open Text

/-! ## Findings on different files -/

namespace Finding

/-- A list of different paths in the order of reports. -/
theorem exists_ordered {paths : List String} (h : paths.Nodup) :
    ∃ ordered : List String, ordered.Perm paths ∧
      ordered.Pairwise fun path later => compare path later = .lt := by
  have hperm := List.mergeSort_perm paths fun path later => (compare path later).isLE
  have hsorted := List.pairwise_mergeSort (fun _ _ _ => Std.TransCmp.isLE_trans)
    (isLE_total (compare : String → String → Ordering)) paths
  refine ⟨_, hperm, (hsorted.and (hperm.nodup_iff.2 h)).imp ?_⟩
  rintro path later ⟨hle, hne⟩
  rcases Ordering.isLE_iff_eq_lt_or_eq_eq.1 hle with hlt | heq
  · exact hlt
  · exact absurd (Std.LawfulEqCmp.eq_of_compare heq) hne

theorem isLE_order_of_path {a b : Finding} (h : compare a.path b.path = .lt) :
    (order a b).isLE = true := by
  rw [order, h]
  rfl

variable {findings : String → List Finding} {paths ordered : List String}
  (hpath : ∀ path, ∀ finding ∈ findings path, finding.path = path)
include hpath

/-- Findings that tie with a given one are on the file of its path. -/
theorem path_eq_of_ties_ne_nil {a : Finding} {path : String}
    (h : ties order a (findings path) ≠ []) : path = a.path := by
  obtain ⟨finding, htie⟩ := List.exists_mem_of_ne_nil _ h
  obtain ⟨hmem, heq⟩ := mem_ties.1 htie
  rw [(eq_of_order_eq heq).1, hpath path finding hmem]

/-- The order of the files makes no difference for ties. -/
theorem ties_flatMap (hperm : ordered.Perm paths) (hnodup : ordered.Nodup) (a : Finding) :
    ties order a (paths.flatMap findings) = ties order a (ordered.flatMap findings) := by
  have hone : (ordered.map findings).Pairwise fun list other =>
      ties order a list = [] ∨ ties order a other = [] := by
    rw [List.pairwise_map]
    refine hnodup.imp fun hne => ?_
    by_contra! h
    exact hne ((path_eq_of_ties_ne_nil hpath h.1).trans (path_eq_of_ties_ne_nil hpath h.2).symm)
  have hmerged : IsInterleaving (ordered.map findings) (paths.flatMap findings) :=
    (IsInterleaving.flatten (paths.map findings)).of_perm (hperm.symm.map findings)
  exact hmerged.filter_eq hone

/-- Sorting the findings on all files is sorting those on each file, and taking the files in the
order of their paths. -/
theorem sort_flatMap (hperm : ordered.Perm paths)
    (hordered : ordered.Pairwise fun path later => compare path later = .lt) :
    sort (paths.flatMap findings) = ordered.flatMap fun path => sort (findings path) := by
  have hnodup : ordered.Nodup := by
    refine hordered.imp fun hlt heq => ?_
    simp [heq] at hlt
  have hsorted (list : List Finding) : (sort list).Pairwise fun a b => (order a b).isLE = true :=
    List.pairwise_mergeSort (fun _ _ _ => Std.TransCmp.isLE_trans) (isLE_total order) list
  refine eq_of_ties_eq (hsorted _) ?_ ?_
  · -- The order of the paths decides between findings on different files.
    rw [List.pairwise_flatMap]
    refine ⟨fun path _ => hsorted _, hordered.imp ?_⟩
    intro path later hlt a ha b hb
    apply isLE_order_of_path
    rwa [hpath path a (List.mem_mergeSort.1 ha), hpath later b (List.mem_mergeSort.1 hb)]
  · intro a
    have hties (path : String) : ties order a (sort (findings path)) = ties order a (findings path) :=
      ties_mergeSort a _
    calc ties order a (sort (paths.flatMap findings))
        = ties order a (ordered.flatMap findings) := by
          rw [sort, ties_mergeSort, ties_flatMap hpath hperm hnodup]
      _ = ordered.flatMap fun path => ties order a (findings path) := List.filter_flatMap
      _ = ordered.flatMap fun path => ties order a (sort (findings path)) := by simp only [hties]
      _ = ties order a (ordered.flatMap fun path => sort (findings path)) :=
          List.filter_flatMap.symm

end Finding

namespace CommandLine

/-! ## Runs over files and directories -/

/-- Outcomes of runs that report the same findings, one in JSON and one line by line. -/
def Outcome.AgreesWith (inJson inLines : Outcome) : Prop :=
  inJson.code = inLines.code ∧ ∃ findings fileCount,
    inJson.Reports true findings fileCount ∧ inLines.Reports false findings fileCount

namespace Surroundings

/-- Runs over a directory report what runs over the files at some paths do, one after the other. -/
structure AddsUp (surroundings : Surroundings) (target : String) (config : Option String)
    (paths : List String) (reported : String → List Finding) : Prop where
  /-- Where the directory can be given to a run, each of the files can. -/
  callable : ∀ path ∈ paths, ∀ words json verbose,
    Arguments.parse words = .ok { target, config, json, verbose } →
    ∃ others, Arguments.parse others = .ok { target := path, config, json, verbose }
  /-- A run over one of the files reports the findings on it. -/
  single : ∀ path ∈ paths, ∀ program words json verbose,
    Arguments.parse words = .ok { target := path, config, json, verbose } →
    (run surroundings program words).Reports json (reported path) 1
  /-- A run over the directory reports the findings on the files, in the order of the paths. -/
  whole : ∀ program words json verbose,
    Arguments.parse words = .ok { target, config, json, verbose } →
    (run surroundings program words).Reports json (paths.flatMap reported) paths.length
  /-- Its exit code tells whether there are findings on any of the files. -/
  code_eq : ∀ program words json verbose,
    Arguments.parse words = .ok { target, config, json, verbose } →
    (run surroundings program words).code = if ∃ path ∈ paths, reported path ≠ [] then 1 else 0
  /-- The findings are the same, and so is the exit code, whether the report is in JSON or not. -/
  agree : ∀ program words verbose program' words' verbose',
    Arguments.parse words = .ok { target, config, json := true, verbose } →
    Arguments.parse words' = .ok { target, config, json := false, verbose := verbose' } →
    (run surroundings program words).AgreesWith (run surroundings program' words')

variable {surroundings : Surroundings} {target : String} {config : Option String}
  {options : Options} {entries : FileTree.Directory} {paths : List String}

/-- When every file below a directory can be read, a run over the directory reports the findings of
the runs over the files, in the order of the bytes of their paths. -/
theorem exists_addsUp (hroot : FileTree.areProper surroundings.files.root = true)
    (hlog : surroundings.logError = none)
    (hoptions : Run.loadOptions surroundings.files config = .ok options)
    (htarget : surroundings.files.resolve target = .ok (.directory entries))
    (hfind : Sources.find surroundings.files target = .ok paths)
    (htrees : surroundings.MakesTrees paths)
    (hread : ∀ path ∈ paths, ∃ text, Sources.read surroundings.files path = .ok text ∧
      ∀ file, surroundings.parse text = some file → file.IsUnmarked) :
    ∃ ordered : List String, ordered.Perm paths ∧
      (ordered.Pairwise fun path later => bytes path.toList < bytes later.toList) ∧
      surroundings.AddsUp target config ordered fun path => surroundings.report options [path] := by
  have hnodup := Sources.nodup_of_find hroot htarget hfind
  obtain ⟨ordered, hperm, hordered⟩ := Finding.exists_ordered hnodup
  -- Sorting all findings together is the same as file by file.
  have hreport : surroundings.report options paths =
      ordered.flatMap fun path => surroundings.report options [path] := by
    simp only [report, List.flatMap_singleton]
    exact Finding.sort_flatMap (fun _ _ => path_of_mem_findingsAt) hperm hordered
  have hwhole (program : String) (words : List String) (json verbose : Bool)
      (hparse : Arguments.parse words = .ok { target, config, json, verbose }) :
      (run surroundings program words).Reports json
        (ordered.flatMap fun path => surroundings.report options [path]) ordered.length := by
    rw [← hreport, hperm.length_eq]
    exact reports_run rfl hoptions hfind hparse hlog htrees hread program
  refine ⟨ordered, hperm, hordered.imp Finding.bytes_lt_of_compare, ?_⟩
  constructor
  case callable =>
    intro path hpath words json verbose hparse
    obtain ⟨names, -, rfl⟩ := Sources.mem_of_find htarget hfind (hperm.mem_iff.1 hpath)
    -- The path begins as that of the directory does, so it is not taken for a flag.
    have hhead := Arguments.head?_target_of_parse hparse
    have hne : target ≠ "" := by
      rintro rfl
      cases htarget
    rw [← Sources.head?_toList_pathBelow hne names] at hhead
    exact ⟨_, Arguments.parse_words hhead⟩
  case single =>
    intro path hpath program words json verbose hparse
    have hmem := hperm.mem_iff.1 hpath
    -- With this path for its target, a run finds this file and no other.
    have hfile := Sources.find_eq_singleton_of_mem hroot htarget hfind hmem
    have htree : surroundings.MakesTrees [path] :=
      ⟨htrees.parserError_eq, by simpa using htrees.exists_tree path hmem⟩
    exact reports_run rfl hoptions hfile hparse hlog htree (by simpa using hread path hmem) program
  case whole => exact hwhole
  case code_eq =>
    intro program words json verbose hparse
    rw [(hwhole program words json verbose hparse).code_eq, ← ite_not]
    exact if_congr (by simp) rfl rfl
  case agree =>
    intro program words verbose program' words' verbose' hparse hparse'
    have hjson := hwhole program words true verbose hparse
    have hlines := hwhole program' words' false verbose' hparse'
    exact ⟨by rw [hjson.code_eq, hlines.code_eq], _, _, hjson, hlines⟩

open FileTree in
/-- A file in a directory is found before one beside it whose name goes on with a hyphen, and reported
behind it. -/
theorem exists_addsUp_hyphen :
    let entries := [("a", directory [("b.cs", file (some "/// <param>x\nclass C{}"))]),
      ("a-b.cs", file (some "/// <summary/><exception/>\nclass C{}"))]
    let surroundings := ofComments (directory [("src", directory entries)])
    let paths := ["src/a/b.cs", "src/a-b.cs"]
    areProper surroundings.files.root = true ∧ surroundings.logError = none ∧
      Run.loadOptions surroundings.files none = .ok {} ∧
      surroundings.files.resolve "src" = .ok (directory entries) ∧
      Sources.find surroundings.files "src" = .ok paths ∧ surroundings.MakesTrees paths ∧
      (∀ path ∈ paths, ∃ text, Sources.read surroundings.files path = .ok text ∧
        ∀ file, surroundings.parse text = some file → file.IsUnmarked) ∧
      ∃ ordered : List String, ordered.Perm paths ∧
        (ordered.Pairwise fun path later => bytes path.toList < bytes later.toList) ∧
        surroundings.AddsUp "src" none ordered fun path => surroundings.report {} [path] := by
  intro entries surroundings paths
  have hfiles : surroundings.files = FileSystem.around (directory [("src", directory entries)]) := rfl
  have hroot : areProper surroundings.files.root = true := by decide +kernel
  have htarget : surroundings.files.resolve "src" = .ok (directory entries) := by
    rw [hfiles, FileSystem.resolve_around (by decide) (by decide),
      show Path.parts "src" = ["src"] by decide +kernel,
      walk_directory (by decide) (by decide) rfl, walk_nil]
  have hbelow : Sources.below entries = [["a", "b.cs"], ["a-b.cs"]] := by
    simp [entries, Sources.below, isFile, show Sources.isSourceName "b.cs" = true by decide +kernel,
      show Sources.isSourceName "a-b.cs" = true by decide +kernel,
      show Sources.isSkipped "a" = false by decide +kernel]
  have hfind : Sources.find surroundings.files "src" = .ok paths :=
    Sources.find_of_pairwise htarget (by simp [entries, Sources.isOpen]) hbelow (by decide +kernel)
  have hinner : Sources.read surroundings.files "src/a/b.cs" = .ok "/// <param>x\nclass C{}" := by
    rw [Sources.read, FileSystem.read, hfiles, FileSystem.resolve_around (by decide) (by decide),
      show Path.parts "src/a/b.cs" = ["src", "a", "b.cs"] by decide +kernel,
      walk_directory (by decide) (by decide) rfl, walk_directory (by decide) (by decide) rfl,
      walk_file (by decide) (by decide) rfl rfl]
    rfl
  have houter : Sources.read surroundings.files "src/a-b.cs" =
      .ok "/// <summary/><exception/>\nclass C{}" := by
    rw [Sources.read, FileSystem.read, hfiles, FileSystem.resolve_around (by decide) (by decide),
      show Path.parts "src/a-b.cs" = ["src", "a-b.cs"] by decide +kernel,
      walk_directory (by decide) (by decide) rfl, walk_file (by decide) (by decide) rfl rfl]
    rfl
  have htrees : surroundings.MakesTrees paths := makesTrees_of_treeAt? rfl (by
    simp only [paths, List.forall_mem_cons, treeAt?_of_read hinner, treeAt?_of_read houter]
    exact ⟨rfl, rfl, by simp⟩)
  have hread : ∀ path ∈ paths, ∃ text, Sources.read surroundings.files path = .ok text ∧
      ∀ file, surroundings.parse text = some file → file.IsUnmarked := by
    simp only [paths, List.forall_mem_cons]
    refine ⟨⟨_, hinner, ?_⟩, ⟨_, houter, ?_⟩, by simp⟩
    · rintro file hparsed
      cases hparsed
      exact Code.SourceFile.isUnmarked_iff.2 ⟨by decide +kernel, by decide +kernel⟩
    · rintro file hparsed
      cases hparsed
      exact Code.SourceFile.isUnmarked_iff.2 ⟨by decide +kernel, by decide +kernel⟩
  exact ⟨hroot, rfl, rfl, htarget, hfind, htrees, hread,
    exists_addsUp hroot rfl rfl htarget hfind htrees hread⟩

end Surroundings
end CommandLine
end DocAudit

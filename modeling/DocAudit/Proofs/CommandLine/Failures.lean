import DocAudit.Proofs.CommandLine.Reports
import DocAudit.Proofs.Files.Discovery

/-!
# Runs that fail

A run reads all its files before it prints anything. So whatever step fails, and whatever was found by
then, the report is not printed in part: there is none. A run in which no step fails prints all of it.

* `IsOrderly`: a step does not break a run off, as a check without byte order marks does not;
* `Effect.Stops`: a part of a run comes to an error before anything is written;
* `Surroundings.Fails`: a step of a run fails;
* `Surroundings.ReportsAllOrNothing`: what is printed then, and what is printed otherwise;
* `Surroundings.reportsAllOrNothing`: that is how it is for all systems of files and all words.
-/

namespace DocAudit.CommandLine

/-- The outcome of a run that fails: it is told by the exit code, and there is no report. -/
structure Outcome.Failed (outcome : Outcome) : Prop where
  code_eq : outcome.code = 2
  output_eq : outcome.output = ""

/-! ## Effects that stop -/

/-- A result is a value, or an error that does not break a run off. -/
def IsOrderly {α : Type} (result : Except RunError α) : Prop :=
  ∀ error, result = .error error → error.code = 2

theorem isOrderly_mapError {α ε : Type} {wrap : ε → RunError} (hwrap : ∀ cause, (wrap cause).code = 2)
    (value : Except ε α) : IsOrderly (value.mapError wrap) := by
  rintro error herror
  cases value with
  | ok value => cases herror
  | error cause =>
    cases herror
    exact hwrap cause

theorem isOrderly_loadOptions (files : FileSystem) (config : Option String) :
    IsOrderly (Run.loadOptions files config) := by
  cases config with
  | none => exact fun error herror => by cases herror
  | some path => exact isOrderly_mapError (fun _ => rfl) _

theorem isOrderly_parserState (surroundings : Surroundings) :
    IsOrderly (Run.parserState surroundings) := by
  unfold Run.parserState
  cases surroundings.parserError with
  | none => exact fun error herror => by cases herror
  | some reason =>
    intro error herror
    cases herror
    rfl

theorem parserError_eq_none {surroundings : Surroundings} {value : Unit}
    (h : Run.parserState surroundings = .ok value) : surroundings.parserError = none := by
  unfold Run.parserState at h
  cases hparser : surroundings.parserError with
  | none => rfl
  | some reason =>
    rw [hparser] at h
    cases h

namespace Effect

variable {α β : Type}

/-- Nothing is written, and there is an error. -/
def Stops (effect : Effect α) : Prop :=
  ∃ error : RunError, error.code = 2 ∧ effect = quiet (.error error)

/-- Where a step that writes nothing has a value, what follows decides. -/
theorem stops_bind {result : Except RunError α} {next : α → Effect β} (hresult : IsOrderly result)
    (h : ∀ value, result = .ok value → (next value).Stops) : (quiet result >>= next).Stops := by
  cases result with
  | error error => exact ⟨error, hresult error rfl, quiet_error_bind error next⟩
  | ok value =>
    rw [quiet_ok_bind]
    exact h value rfl

/-- A run whose effect stops fails. -/
theorem Stops.failed {effect : Effect Nat} (h : effect.Stops) (log : Option (List LogEntry)) :
    (Outcome.ofEffect log effect).Failed := by
  obtain ⟨error, hcode, rfl⟩ := h
  exact ⟨hcode, rfl⟩

end Effect

namespace Surroundings

/-! ## Steps that fail -/

/-- A step of a run fails. -/
inductive Fails (surroundings : Surroundings) (words : List String) : Prop
  /-- The words are not understood. -/
  | words {error : ArgumentError} (herror : Arguments.parse words = .error error)
  /-- No log can be written. -/
  | log {arguments : Arguments} {cause : FileError} (hparse : Arguments.parse words = .ok arguments)
    (herror : surroundings.logError = some cause)
  /-- The option file cannot be used. -/
  | options {arguments : Arguments} {path : String} {cause : AuditError}
    (hparse : Arguments.parse words = .ok arguments) (hconfig : arguments.config = some path)
    (herror : Options.load surroundings.files path = .error cause)
  /-- The file whose tree is to be shown cannot be read. -/
  | tree {arguments : Arguments} {cause : SourceError}
    (hparse : Arguments.parse words = .ok arguments) (hdump : arguments.dumpTree = true)
    (herror : Sources.read surroundings.files arguments.target = .error cause)
  /-- There is no tree of it. -/
  | noTree {arguments : Arguments} {text : String}
    (hparse : Arguments.parse words = .ok arguments) (hdump : arguments.dumpTree = true)
    (hread : Sources.read surroundings.files arguments.target = .ok text)
    (hnone : surroundings.parse text = none)
  /-- The files to check cannot be found. -/
  | target {arguments : Arguments} {cause : SourceError}
    (hparse : Arguments.parse words = .ok arguments) (hdump : arguments.dumpTree = false)
    (herror : Sources.find surroundings.files arguments.target = .error cause)
  /-- Trees cannot be made at all. -/
  | parser {arguments : Arguments} {reason : String}
    (hparse : Arguments.parse words = .ok arguments)
    (herror : surroundings.parserError = some reason)
  /-- One of the files to check cannot be read. -/
  | source {arguments : Arguments} {paths : List String} {path : String} {cause : SourceError}
    (hparse : Arguments.parse words = .ok arguments) (hdump : arguments.dumpTree = false)
    (hfind : Sources.find surroundings.files arguments.target = .ok paths) (hpath : path ∈ paths)
    (herror : Sources.read surroundings.files path = .error cause)

variable {surroundings : Surroundings} {arguments : Arguments} {options : Options}
  {words : List String}

theorem failed_of_logError {cause : FileError} (hparse : Arguments.parse words = .ok arguments)
    (hlog : surroundings.logError = some cause) (program : String) :
    (run surroundings program words).Failed := by
  have hstart : (start surroundings program words).run {} =
      (2, Console.tell ("Failed to initialize logger: " ++ cause.message) {}) := by
    rw [start, hparse]
    dsimp only
    rw [hlog]
    rfl
  rw [run, hstart]
  exact ⟨rfl, rfl⟩

/-- A run whose effect stops fails, be it for want of a log. -/
theorem failed_of_stops (hparse : Arguments.parse words = .ok arguments)
    (hstops : surroundings.logError = none → (Run.effect surroundings arguments).Stops)
    (program : String) : (run surroundings program words).Failed := by
  cases hlog : surroundings.logError with
  | some cause => exact failed_of_logError hparse hlog program
  | none =>
    obtain ⟨log, hrun⟩ := exists_run_eq hparse hlog program
    rw [hrun]
    exact (hstops hlog).failed log

theorem stops_effect_of_dump (hdump : arguments.dumpTree = true)
    (h : (Run.dumpEffect surroundings arguments).Stops) :
    (Run.effect surroundings arguments).Stops :=
  Effect.stops_bind (isOrderly_loadOptions _ _) fun options _ => by rwa [if_pos hdump]

theorem stops_effect_of_audit (hdump : arguments.dumpTree = false)
    (h : ∀ options, Run.loadOptions surroundings.files arguments.config = .ok options →
      (Run.auditEffect surroundings arguments options).Stops) :
    (Run.effect surroundings arguments).Stops :=
  Effect.stops_bind (isOrderly_loadOptions _ _) fun options hoptions => by
    rw [if_neg (by simp [hdump])]
    exact h options hoptions

/-- A run checks the file at a path: it gets as far as this file, and the file has a text. -/
def Checks (surroundings : Surroundings) (words : List String) (path text : String) : Prop :=
  ∃ arguments options earlier later, Arguments.parse words = .ok arguments ∧
    surroundings.logError = none ∧
    Run.loadOptions surroundings.files arguments.config = .ok options ∧
    arguments.dumpTree = false ∧
    Sources.find surroundings.files arguments.target = .ok (earlier ++ path :: later) ∧
    surroundings.parserError = none ∧
    (∀ other ∈ earlier, ∃ text, Sources.read surroundings.files other = .ok text) ∧
    Sources.read surroundings.files path = .ok text

/-- No doc comment in a file that a run checks begins with a byte order mark. -/
def IsUnmarked (surroundings : Surroundings) (words : List String) : Prop :=
  ∀ path text file, surroundings.Checks words path text → surroundings.parse text = some file →
    file.IsUnmarked

/-- Without byte order marks, no check breaks a run off. -/
theorem isOrderly_checks {paths : List String} (hmark : surroundings.IsUnmarked words)
    (hparse : Arguments.parse words = .ok arguments) (hlog : surroundings.logError = none)
    (hoptions : Run.loadOptions surroundings.files arguments.config = .ok options)
    (hdump : arguments.dumpTree = false)
    (hfind : Sources.find surroundings.files arguments.target = .ok paths)
    (hparser : surroundings.parserError = none) :
    IsOrderly (paths.mapM (Run.check surroundings options)) := by
  intro error herror
  by_contra hcode
  -- The run gets to the file whose check would break it off.
  obtain ⟨earlier, path, later, rfl, hearlier, hpath⟩ := exists_of_mapM_eq_error herror
  obtain ⟨text, file, hread, hfile, hreadable⟩ := exists_tree_of_check hpath hcode
  have hothers : ∀ other ∈ earlier, ∃ text, Sources.read surroundings.files other = .ok text := by
    intro other hother
    obtain ⟨findings, hfindings⟩ := hearlier other hother
    exact exists_read_of_check hfindings
  have hunmarked := hmark path text file ⟨arguments, options, earlier, later, hparse, hlog, hoptions,
    hdump, hfind, hparser, hothers, hread⟩ hfile
  rw [hunmarked.isReadable] at hreadable
  cases hreadable

/-- A run fails when any of its steps does. -/
theorem Fails.failed (h : surroundings.Fails words) (hmark : surroundings.IsUnmarked words)
    (program : String) : (run surroundings program words).Failed := by
  -- The first two steps end a run before its log begins, and the others make its effect stop.
  cases h with
  | words herror =>
    rw [run, start, herror]
    exact ⟨rfl, rfl⟩
  | log hparse herror => exact failed_of_logError hparse herror program
  | @options arguments path cause hparse hconfig herror =>
    refine failed_of_stops hparse (fun _ => ?_) program
    refine Effect.stops_bind (isOrderly_loadOptions _ _) fun options hoptions => ?_
    rw [hconfig, Run.loadOptions, herror] at hoptions
    cases hoptions
  | tree hparse hdump herror =>
    refine failed_of_stops hparse (fun _ => stops_effect_of_dump hdump ?_) program
    refine Effect.stops_bind (isOrderly_mapError (fun _ => rfl) _) fun text htext => ?_
    rw [herror] at htext
    cases htext
  | noTree hparse hdump hread hnone =>
    refine failed_of_stops hparse (fun _ => stops_effect_of_dump hdump ?_) program
    refine Effect.stops_bind (isOrderly_mapError (fun _ => rfl) _) fun text htext => ?_
    refine Effect.stops_bind (isOrderly_parserState _) fun _ _ => ?_
    rw [hread] at htext
    cases htext
    rw [hnone]
    exact ⟨_, rfl, rfl⟩
  | target hparse hdump herror =>
    refine failed_of_stops hparse (fun _ => stops_effect_of_audit hdump fun options _ => ?_) program
    refine Effect.stops_bind (isOrderly_mapError (fun _ => rfl) _) fun paths hpaths => ?_
    rw [herror] at hpaths
    cases hpaths
  | @parser arguments reason hparse herror =>
    have hstate (value : Unit) : Run.parserState surroundings ≠ .ok value := fun hvalue => by
      cases herror.symm.trans (parserError_eq_none hvalue)
    refine failed_of_stops hparse (fun _ => ?_) program
    -- The parser is set up behind the first look at the target, which may fail before it.
    cases hdump : arguments.dumpTree with
    | true =>
      refine stops_effect_of_dump hdump
        (Effect.stops_bind (isOrderly_mapError (fun _ => rfl) _) fun text _ => ?_)
      exact Effect.stops_bind (isOrderly_parserState _)
        fun value hvalue => absurd hvalue (hstate value)
    | false =>
      refine stops_effect_of_audit hdump fun options _ =>
        Effect.stops_bind (isOrderly_mapError (fun _ => rfl) _) fun paths _ => ?_
      exact Effect.stops_bind (isOrderly_parserState _)
        fun value hvalue => absurd hvalue (hstate value)
  | @source arguments paths path cause hparse hdump hfind hpath herror =>
    refine failed_of_stops hparse
      (fun hlog => stops_effect_of_audit hdump fun options hoptions => ?_) program
    refine Effect.stops_bind (isOrderly_mapError (fun _ => rfl) _) fun found hfound => ?_
    refine Effect.stops_bind (isOrderly_parserState _) fun _ hstate => ?_
    rw [hfind] at hfound
    cases hfound
    have horderly := isOrderly_checks hmark hparse hlog hoptions hdump hfind
      (parserError_eq_none hstate)
    -- The other files may have any findings: none of them is printed yet.
    exact Effect.stops_bind horderly fun results hresults =>
      absurd hresults (mapM_ne_ok hpath (check_of_error herror) results)

/-! ## Runs without a failure -/

/-- What a run prints is a whole report, or nothing at all. -/
structure ReportsAllOrNothing (surroundings : Surroundings) (program : String)
    (words : List String) : Prop where
  /-- When a step fails, there is no report, whatever was found before. -/
  nothing : surroundings.Fails words → (run surroundings program words).Failed
  /-- Otherwise the words are understood, and all findings on all files that are found are reported,
  when the parser makes trees of them. -/
  all : ¬surroundings.Fails words → ∃ arguments, Arguments.parse words = .ok arguments ∧
    (arguments.dumpTree = false → ∃ options paths,
      Run.loadOptions surroundings.files arguments.config = .ok options ∧
      Sources.find surroundings.files arguments.target = .ok paths ∧
      (∀ path ∈ paths, ∃ text, Sources.read surroundings.files path = .ok text) ∧
      (surroundings.MakesTrees paths →
        (run surroundings program words).Reports arguments.json (surroundings.report options paths)
          paths.length))

/-- A result that is not an error is a value. -/
theorem exists_eq_ok {α ε : Type} {value : Except ε α} (h : ∀ error, value ≠ .error error) :
    ∃ a, value = .ok a := by
  cases value with
  | ok a => exact ⟨a, rfl⟩
  | error error => exact absurd rfl (h error)

/-- Whatever a run is told and whatever files it has, it fails without a report or reports all
findings. -/
theorem reportsAllOrNothing (hmark : surroundings.IsUnmarked words) (program : String) :
    surroundings.ReportsAllOrNothing program words where
  nothing hfails := hfails.failed hmark program
  all hfails := by
    obtain ⟨arguments, hparse⟩ := exists_eq_ok fun error herror => hfails (.words herror)
    refine ⟨arguments, hparse, fun hdump => ?_⟩
    -- Each step gives a value, since it is none that fails.
    have hlog : surroundings.logError = none := by
      rw [Option.eq_none_iff_forall_ne_some]
      exact fun cause hcause => hfails (.log hparse hcause)
    have hparser : surroundings.parserError = none := by
      rw [Option.eq_none_iff_forall_ne_some]
      exact fun reason hreason => hfails (.parser hparse hreason)
    obtain ⟨options, hoptions⟩ : ∃ options,
        Run.loadOptions surroundings.files arguments.config = .ok options := by
      cases hconfig : arguments.config with
      | none => exact ⟨{}, rfl⟩
      | some path =>
        obtain ⟨options, hload⟩ := exists_eq_ok fun error herror =>
          hfails (.options hparse hconfig herror)
        exact ⟨options, by rw [Run.loadOptions, hload]; rfl⟩
    obtain ⟨paths, hfind⟩ := exists_eq_ok fun error herror => hfails (.target hparse hdump herror)
    have hread (path : String) (hpath : path ∈ paths) :
        ∃ text, Sources.read surroundings.files path = .ok text :=
      exists_eq_ok fun error herror => hfails (.source hparse hdump hfind hpath herror)
    refine ⟨options, paths, hoptions, hfind, hread, fun htrees => ?_⟩
    refine reports_run hdump hoptions hfind hparse hlog htrees ?_ program
    intro path hpath
    obtain ⟨text, htext⟩ := hread path hpath
    -- All files in front of this one are read, so the run gets to it.
    obtain ⟨earlier, later, rfl⟩ := List.append_of_mem hpath
    have hearlier : ∀ other ∈ earlier, ∃ text, Sources.read surroundings.files other = .ok text :=
      fun other hother => hread other (List.mem_append_left _ hother)
    exact ⟨text, htext, fun file => hmark path text file ⟨arguments, options, earlier, later, hparse,
      hlog, hoptions, hdump, hfind, hparser, hearlier, htext⟩⟩

open FileTree in
/-- A file with findings in front of one that is no text. -/
theorem reportsAllOrNothing_brokenFile :
    let entries := [("a.cs", file (some "/// <param>x\nclass C{}")), ("b.cs", file none)]
    let surroundings := ofComments (directory entries)
    let words := ["--json", "."]
    surroundings.IsUnmarked words ∧ (surroundings.findingsAt {} "./a.cs").length = 3 ∧
      surroundings.Fails words ∧ surroundings.ReportsAllOrNothing "audit" words := by
  intro entries surroundings words
  have hparse : Arguments.parse words = .ok ⟨".", none, true, false, false⟩ := by decide +kernel
  have hfiles : surroundings.files = FileSystem.around (directory entries) := rfl
  have htarget : surroundings.files.resolve "." = .ok (directory entries) := by
    rw [hfiles, FileSystem.resolve_around (by decide) (by decide),
      show Path.parts "." = [Path.here] by decide +kernel, walk_here, walk_nil]
  have hbelow : Sources.below entries = [["a.cs"], ["b.cs"]] := by
    simp [entries, Sources.below, isFile, show Sources.isSourceName "a.cs" = true by decide +kernel,
      show Sources.isSourceName "b.cs" = true by decide +kernel]
  have hfind : Sources.find surroundings.files "." = .ok ["./a.cs", "./b.cs"] :=
    Sources.find_of_pairwise htarget (by simp [entries, Sources.isOpen]) hbelow (by decide +kernel)
  have hfirst : Sources.read surroundings.files "./a.cs" = .ok "/// <param>x\nclass C{}" := by
    rw [Sources.read, FileSystem.read, hfiles, FileSystem.resolve_around (by decide) (by decide),
      show Path.parts "./a.cs" = [Path.here, "a.cs"] by decide +kernel, walk_here,
      walk_file (by decide) (by decide) rfl rfl]
    rfl
  have hsecond : Sources.read surroundings.files "./b.cs" =
      .error (.unreadable "./b.cs" .notText) := by
    rw [Sources.read, FileSystem.read, hfiles, FileSystem.resolve_around (by decide) (by decide),
      show Path.parts "./b.cs" = [Path.here, "b.cs"] by decide +kernel, walk_here,
      walk_file (by decide) (by decide) rfl rfl]
    rfl
  have hfile : surroundings.parse "/// <param>x\nclass C{}" =
      some (.commentedClass "/// <param>x") := rfl
  have hmark : surroundings.IsUnmarked words := by
    rintro path text file
      ⟨arguments, options, earlier, later, harguments, -, -, -, hpaths, -, -, htext⟩ hparsed
    obtain rfl : ⟨".", none, true, false, false⟩ = arguments :=
      Except.ok.inj (hparse.symm.trans harguments)
    have hmem : path ∈ ["./a.cs", "./b.cs"] := by
      rw [Except.ok.inj (hfind.symm.trans hpaths)]
      simp
    simp only [List.mem_cons, List.not_mem_nil, or_false] at hmem
    -- Only the first file has a text.
    rcases hmem with rfl | rfl
    · obtain rfl := Except.ok.inj (htext.symm.trans hfirst)
      obtain rfl := Option.some.inj (hparsed.symm.trans hfile)
      exact Code.SourceFile.isUnmarked_iff.2 ⟨by decide +kernel, by decide +kernel⟩
    · cases htext.symm.trans hsecond
  have hfindings : (surroundings.findingsAt {} "./a.cs").length = 3 := by
    rw [findingsAt_of_treeAt? ((treeAt?_of_read hfirst).trans hfile)]
    decide +kernel
  have hfails : surroundings.Fails words := .source hparse rfl hfind (by simp) hsecond
  exact ⟨hmark, hfindings, hfails, reportsAllOrNothing hmark "audit"⟩

end Surroundings
end DocAudit.CommandLine

import DocAudit.CommandLine.Run

/-!
# Outcomes of runs

A run prints, tells messages and writes a log as it goes. What a part of it prints, and what it comes to,
does not depend on what was written before, nor on the log. So the effects of the parts, one after the
other, are the effect of a run, and after an error nothing follows. Its outcome is read off its effect.

* `Effect`: what a part of a run writes, and what it comes to;
* `Run.Emits`: a part of a run has an effect, whatever was written before it;
* `Run.effect`: the effect of a run, step by step;
* `exists_run_eq`: the outcome of a run is that of its effect, with some log;
* `Outcome.Reports`: the outcome of a run that reports findings on its files.
-/

namespace DocAudit.CommandLine

open Code

/-! ## Effects -/

/-- What a part of a run writes besides its log, and what it comes to. -/
structure Effect (α : Type) where
  /-- What is printed. -/
  output : String
  /-- The messages. -/
  messages : String
  /-- A value, or an error. -/
  result : Except RunError α

namespace Effect

variable {α β : Type}

/-- Nothing is written. -/
def quiet (result : Except RunError α) : Effect α :=
  ⟨"", "", result⟩

/-- One effect after the other. The second is that of the value of the first. -/
def andThen (first : Effect α) (next : α → Effect β) : Effect β :=
  match first.result with
  | .ok value =>
    let second := next value
    ⟨first.output ++ second.output, first.messages ++ second.messages, second.result⟩
  | .error error => ⟨first.output, first.messages, .error error⟩

instance : Monad Effect where
  pure value := quiet (.ok value)
  bind := andThen

@[simp]
theorem quiet_ok_bind (value : α) (next : α → Effect β) :
    (quiet (.ok value) >>= next) = next value := by
  change andThen (quiet (.ok value)) next = next value
  simp [andThen, quiet]

@[simp]
theorem quiet_error_bind (error : RunError) (next : α → Effect β) :
    (quiet (.error error) >>= next) = quiet (.error error) :=
  rfl

@[simp]
theorem ok_bind (output messages : String) (value : α) (next : α → Effect β) :
    ((⟨output, messages, .ok value⟩ : Effect α) >>= next) =
      ⟨output ++ (next value).output, messages ++ (next value).messages, (next value).result⟩ :=
  rfl

/-- Results one after the other, without anything written. -/
theorem quiet_bind (result : Except RunError α) (later : α → Except RunError β) :
    quiet (result >>= later) = quiet result >>= fun value => quiet (later value) := by
  cases result with
  | ok value => exact (quiet_ok_bind value fun value => quiet (later value)).symm
  | error error => rfl

end Effect

namespace Run

variable {α β ε : Type}

/-- A part of a run has this effect, whatever was written before it. What it adds to the log is left
open. -/
def Emits (part : Run α) (effect : Effect α) : Prop :=
  ∀ console, ∃ log, part.run.run console =
    (effect.result, ⟨console.output ++ effect.output, console.messages ++ effect.messages, log⟩)

theorem run_bind (part : Run α) (next : α → Run β) (console : Console) :
    (part >>= next).run.run console =
      match part.run.run console with
      | (.ok value, later) => (next value).run.run later
      | (.error error, later) => (.error error, later) := by
  simp only [ExceptT.run, StateT.run, bind, ExceptT.bind, ExceptT.mk, StateT.bind, ExceptT.bindCont]
  obtain ⟨error | value, later⟩ := part console <;> rfl

/-- A step with an effect is followed by the next one, unless it is an error. -/
theorem Emits.bind {part : Run α} {first : Effect α} {next : α → Run β} {second : α → Effect β}
    (hfirst : part.Emits first) (hnext : ∀ value, (next value).Emits (second value)) :
    (part >>= next).Emits (first >>= second) := by
  intro console
  obtain ⟨log, hrun⟩ := hfirst console
  obtain ⟨output, messages, result⟩ := first
  rw [run_bind, hrun]
  cases result with
  | error error => exact ⟨log, rfl⟩
  | ok value =>
    -- What the second step writes comes behind what the first one wrote.
    obtain ⟨log, hrun⟩ := hnext value ⟨console.output ++ output, console.messages ++ messages, log⟩
    refine ⟨log, hrun.trans ?_⟩
    rw [String.append_assoc, String.append_assoc]
    rfl

theorem emits_pure (value : α) : Emits (pure value) (.quiet (.ok value)) :=
  fun console => ⟨console.log, by simp [Effect.quiet]; rfl⟩

theorem emits_throw (error : RunError) : Emits (throw error : Run α) (.quiet (.error error)) :=
  fun console => ⟨console.log, by simp [Effect.quiet]; rfl⟩

theorem emits_print (text : String) :
    Emits (modify (·.print text)) ⟨text, "", .ok ()⟩ :=
  fun console => ⟨console.log, by simp; rfl⟩

theorem emits_tell (message : String) :
    Emits (modify (·.tell message)) ⟨"", message ++ "\n", .ok ()⟩ :=
  fun console => ⟨console.log, by simp [← String.append_assoc]; rfl⟩

theorem emits_log (level : LogLevel) (message : String) :
    (Run.log level message).Emits (.quiet (.ok ())) :=
  fun console => ⟨console.log.map (· ++ [⟨level, message⟩]), by simp [Effect.quiet]; rfl⟩

theorem emits_ofExcept (wrap : ε → RunError) (value : Except ε α) :
    (ofExcept wrap value).Emits (.quiet (value.mapError wrap)) := by
  cases value with
  | ok value => exact emits_pure value
  | error cause => exact emits_throw _

/-- What is only logged in front of a part makes no difference. -/
theorem Emits.afterLog {part : Run β} {effect : Effect β} (h : part.Emits effect) {first : Run Unit}
    (hfirst : first.Emits (.quiet (.ok ()))) : (first >>= fun _ => part).Emits effect := by
  rw [← Effect.quiet_ok_bind () fun _ => effect]
  exact hfirst.bind fun _ => h

/-- Nothing is written by the part that comes last. -/
theorem Emits.followedBy {first : Run Unit} {output messages : String} {next : Run β}
    {result : Except RunError β} (h : first.Emits ⟨output, messages, .ok ()⟩)
    (hnext : next.Emits (.quiet result)) :
    (first >>= fun _ => next).Emits ⟨output, messages, result⟩ := by
  simpa [Effect.quiet] using h.bind fun _ => hnext

/-- Parts that write nothing write nothing one after the other. -/
theorem emits_mapM {f : α → Run β} {g : α → Except RunError β}
    (h : ∀ x, (f x).Emits (.quiet (g x))) (xs : List α) :
    (xs.mapM f).Emits (.quiet (xs.mapM g)) := by
  induction xs with
  | nil => exact emits_pure []
  | cons x xs ih =>
    rw [List.mapM_cons, List.mapM_cons, Effect.quiet_bind]
    -- An error of the first part is that of all, and else the others decide.
    refine (h x).bind fun y => ?_
    rw [Effect.quiet_bind]
    exact ih.bind fun ys => emits_pure (y :: ys)

/-- What the parts print is printed one after the other. -/
theorem emits_forM {f : α → Run Unit} {text : α → String}
    (h : ∀ x, (f x).Emits ⟨text x, "", .ok ()⟩) (xs : List α) :
    (xs.forM f).Emits ⟨String.join (xs.map text), "", .ok ()⟩ := by
  induction xs with
  | nil => exact emits_pure ()
  | cons x xs ih =>
    rw [List.map_cons, String.join_cons]
    simpa using (h x).bind fun _ => ih

/-! ## The steps of a run -/

/-- The options of a run: those of its option file, or else the usual ones. -/
def loadOptions (files : FileSystem) : Option String → Except RunError Options
  | none => .ok {}
  | some path => (Options.load files path).mapError (.options path)

/-- Trees can be made, or not at all. -/
def parserState (surroundings : Surroundings) : Except RunError Unit :=
  match surroundings.parserError with
  | none => .ok ()
  | some reason => .error (.parser (.language reason))

/-- The findings on a file, or none when there is no tree of it. -/
def check (surroundings : Surroundings) (options : Options) (path : String) :
    Except RunError (Option (List Finding)) := do
  let text ← (Sources.read surroundings.files path).mapError .sources
  match surroundings.parse text with
  | none => .ok none
  | some file =>
    if file.isReadable then .ok (some (file.findings options path)) else .error (.misaligned path)

/-- What is printed of findings: an array of objects, or a line for each. -/
def reportText (json : Bool) (findings : List Finding) : String :=
  if json then (Json.Value.array (findings.map Finding.toJson)).text ++ "\n"
  else String.join (findings.map fun finding => finding.display ++ "\n")

/-- What is told besides. -/
def reportMessage (json : Bool) (findings : List Finding) (fileCount : Nat) : String :=
  if json then ""
  else toString findings.length ++ " findings in " ++ toString fileCount ++ " files\n"

/-- The effect of showing a tree. -/
def dumpEffect (surroundings : Surroundings) (arguments : Arguments) : Effect Nat := do
  let text ← .quiet ((Sources.read surroundings.files arguments.target).mapError .sources)
  .quiet (parserState surroundings)
  match surroundings.parse text with
  | none => .quiet (.error (.noTree arguments.target))
  | some file => ⟨file.dump, "", .ok 0⟩

/-- The effect of a report on files, with the findings on each that there is a tree of. -/
def reportEffect (arguments : Arguments) (results : List (Option (List Finding)))
    (fileCount : Nat) : Effect Nat :=
  let findings := Finding.sort (results.flatMap (·.getD []))
  let count := results.countP (·.isNone)
  ⟨reportText arguments.json findings, reportMessage arguments.json findings fileCount,
    if count = 0 then .ok findings.length else .error (.skipped count)⟩

/-- The effect of a check. Nothing is written before all files are looked at. -/
def auditEffect (surroundings : Surroundings) (arguments : Arguments) (options : Options) :
    Effect Nat := do
  let paths ← .quiet ((Sources.find surroundings.files arguments.target).mapError .sources)
  .quiet (parserState surroundings)
  let results ← .quiet (paths.mapM (check surroundings options))
  reportEffect arguments results paths.length

/-- The effect of a run. -/
def effect (surroundings : Surroundings) (arguments : Arguments) : Effect Nat := do
  let options ← .quiet (loadOptions surroundings.files arguments.config)
  if arguments.dumpTree then dumpEffect surroundings arguments
  else auditEffect surroundings arguments options

variable (surroundings : Surroundings) (arguments : Arguments)

theorem emits_options (files : FileSystem) :
    (Run.options files arguments).Emits (.quiet (loadOptions files arguments.config)) := by
  unfold Run.options
  rw [← bind_pure (loadOptions files arguments.config), Effect.quiet_bind]
  have hlog (options : Options) := (emits_pure options).afterLog
    (emits_log .info ("Options: " ++ options.description))
  cases arguments.config with
  | none => exact (emits_pure _).bind hlog
  | some path => exact (emits_ofExcept _ _).bind hlog

theorem emits_setUpParser :
    (setUpParser surroundings).Emits (.quiet (parserState surroundings)) := by
  unfold setUpParser parserState
  cases surroundings.parserError with
  | none => exact emits_pure ()
  | some reason => exact emits_throw _

theorem emits_logDetectors (options : Options) (path : String) (file : SourceFile) :
    (logDetectors options path file).Emits (.quiet (.ok ())) :=
  (emits_log _ _).afterLog (emits_forM (fun _ => emits_log _ _) Detector.all)

theorem emits_analyzeFile (options : Options) (path : String) :
    (analyzeFile surroundings arguments options path).Emits
      (.quiet (check surroundings options path)) := by
  unfold analyzeFile check
  rw [Effect.quiet_bind]
  refine (emits_ofExcept _ _).bind fun text => ?_
  cases surroundings.parse text with
  | none => exact (emits_pure none).afterLog (emits_log _ _)
  | some file =>
    dsimp only
    split
    · have hfindings := (emits_pure (some (file.findings options path))).afterLog
        (emits_log .info
          (path ++ ": " ++ toString (file.findings options path).length ++ " findings"))
      -- What a verbose run logs in between makes no difference.
      split
      · exact hfindings.afterLog (emits_logDetectors options path file)
      · exact hfindings
    · exact emits_throw _

theorem emits_report (findings : List Finding) (fileCount : Nat) :
    (report arguments findings fileCount).Emits
      ⟨reportText arguments.json findings, reportMessage arguments.json findings fileCount,
        .ok ()⟩ := by
  unfold report
  cases arguments.json with
  | true => exact emits_print _
  | false =>
    have hlines := emits_forM (fun finding : Finding => emits_print (finding.display ++ "\n")) findings
    have hcount := emits_tell
      (toString findings.length ++ " findings in " ++ toString fileCount ++ " files")
    simpa [reportText, reportMessage, String.append_assoc] using hlines.bind fun _ => hcount

theorem emits_dump : (dump surroundings arguments).Emits (dumpEffect surroundings arguments) := by
  refine (emits_ofExcept _ _).bind fun text => (emits_setUpParser surroundings).bind fun _ => ?_
  cases surroundings.parse text with
  | none => exact emits_throw _
  | some file => exact (emits_print file.dump).followedBy (emits_pure 0)

theorem emits_audit (options : Options) :
    (audit surroundings arguments options).Emits
      (auditEffect surroundings arguments options) := by
  refine (emits_ofExcept _ _).bind fun paths => Emits.afterLog ?_ (emits_log _ _)
  refine (emits_setUpParser surroundings).bind fun _ => ?_
  refine (emits_mapM (emits_analyzeFile surroundings arguments options) paths).bind fun results => ?_
  have hreport := emits_report arguments (Finding.sort (results.flatMap (·.getD []))) paths.length
  unfold reportEffect
  dsimp only
  split
  · exact hreport.followedBy (emits_pure _)
  · exact hreport.followedBy (emits_throw _)

/-- A run has the effect of its steps. -/
theorem emits_perform (commandLine : List String) :
    (perform surroundings commandLine arguments).Emits (effect surroundings arguments) := by
  unfold perform
  -- The log begins with two entries that come in any case.
  refine Emits.afterLog (Emits.afterLog ?_ (emits_log _ _)) (emits_log _ _)
  refine (emits_options arguments surroundings.files).bind fun options => ?_
  split
  · exact emits_dump surroundings arguments
  · exact emits_audit surroundings arguments options

end Run

/-! ## Outcomes -/

/-- The outcome of a run with this effect and this log. -/
def Outcome.ofEffect (log : Option (List LogEntry)) (effect : Effect Nat) : Outcome :=
  match effect.result with
  | .ok count => ⟨⟨effect.output, effect.messages, log⟩, if count = 0 then 0 else 1⟩
  | .error error =>
    ⟨⟨effect.output, effect.messages ++ "Error: " ++ error.message ++ "\n", log⟩, error.code⟩

variable {surroundings : Surroundings} {arguments : Arguments} {words : List String}

/-- Once its words are understood and it has a log, a run is performed, and an error of it is told. -/
theorem start_run (hparse : Arguments.parse words = .ok arguments)
    (hlog : surroundings.logError = none) (program : String) (console : Console) :
    (start surroundings program words).run console =
      match (Run.perform surroundings (program :: words) arguments).run.run console.openLog with
      | (.ok count, later) => (if count = 0 then 0 else 1, later)
      | (.error error, later) =>
        (error.code, (later.record .error error.message).tell ("Error: " ++ error.message)) := by
  rw [start, hparse]
  dsimp only
  rw [hlog, StateT.run_bind, StateT.run_modify, pure_bind]
  dsimp only
  rw [StateT.run_bind]
  -- The exit code tells no finding from any number of findings.
  obtain ⟨error | (_ | count), later⟩ :=
    (Run.perform surroundings (program :: words) arguments).run.run console.openLog <;> rfl

/-- The outcome of such a run is that of its effect. -/
theorem exists_run_eq (hparse : Arguments.parse words = .ok arguments)
    (hlog : surroundings.logError = none) (program : String) :
    ∃ log, run surroundings program words = .ofEffect log (Run.effect surroundings arguments) := by
  obtain ⟨log, hperform⟩ :=
    Run.emits_perform surroundings arguments (program :: words) (Console.openLog {})
  rw [run, start_run hparse hlog, hperform]
  unfold Outcome.ofEffect
  cases (Run.effect surroundings arguments).result with
  | ok count => exact ⟨log, by simp [Console.openLog]⟩
  | error error =>
    exact ⟨log.map (· ++ [⟨.error, error.message⟩]), by
      simp [Console.openLog, Console.record, Console.tell, String.append_assoc]⟩

/-- An outcome is that of a run that reports findings on so many files: the exit code tells whether
there are any, and the whole report is printed, as an array of objects or line by line. -/
structure Outcome.Reports (outcome : Outcome) (json : Bool) (findings : List Finding)
    (fileCount : Nat) : Prop where
  code_eq : outcome.code = if findings = [] then 0 else 1
  output_eq : outcome.output = Run.reportText json findings
  messages_eq : outcome.messages = Run.reportMessage json findings fileCount

end DocAudit.CommandLine

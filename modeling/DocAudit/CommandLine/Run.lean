import DocAudit.Analysis
import DocAudit.Code.Dump
import DocAudit.CommandLine.Arguments
import DocAudit.Files.Sources
import DocAudit.Finding.Json
import DocAudit.Options.Load

/-!
# Runs

A run goes from the words of a command line to an exit code. On the way it prints a report and messages
and writes a log. The files it finds, the trees of their sources and the state of the log are given;
nothing else is looked at.
-/

namespace DocAudit.CommandLine

open Code

/-- How much an entry of the log matters. -/
inductive LogLevel
  | error
  | warning
  | info
  | debug
deriving DecidableEq, Repr

/-- The word for a level. -/
def LogLevel.name : LogLevel → String
  | error => "ERROR"
  | warning => "WARN"
  | info => "INFO"
  | debug => "DEBUG"

/-- An entry of the log. -/
structure LogEntry where
  /-- How much it matters. -/
  level : LogLevel
  /-- What it says. -/
  message : String
deriving DecidableEq, Repr

/-- The entry as the log shows it, without its time. -/
def LogEntry.text (entry : LogEntry) : String :=
  "[" ++ entry.level.name ++ "] " ++ entry.message

/-- Why a run failed. -/
inductive RunError
  /-- The option file could not be used. -/
  | options (path : String) (cause : AuditError)
  /-- The sources could not be found or read. -/
  | sources (cause : SourceError)
  /-- Trees cannot be made at all. -/
  | parser (cause : AuditError)
  /-- There is no tree for the file whose tree is to be shown. -/
  | noTree (path : String)
  /-- There are no trees for so many files. -/
  | skipped (count : Nat)
  /-- An offset in a doc comment falls inside a character, and the run is broken off. -/
  | misaligned (path : String)
deriving DecidableEq, Repr

/-- The error in words. -/
def RunError.message : RunError → String
  | options path cause => "Failed to load options from " ++ path ++ ": " ++ cause.fullMessage
  | sources cause => cause.message
  | parser cause => cause.fullMessage
  | noTree path => "Failed to parse " ++ path
  | skipped count => toString count ++ " files could not be parsed"
  | misaligned path => "Failed to read the doc comments of " ++ path

/-- The exit code after an error. -/
def RunError.code : RunError → Nat
  | misaligned _ => 101
  | _ => 2

/-- What a run has around it. -/
structure Surroundings where
  /-- The files, and where it works. -/
  files : FileSystem
  /-- The tree of a source text, if one can be made. -/
  parse : String → Option SourceFile
  /-- Why trees cannot be made at all, if that is so. -/
  parserError : Option String := none
  /-- Why no log can be written, if that is so. -/
  logError : Option FileError := none

/-- What a run has written so far. -/
structure Console where
  /-- What it printed: the report, or the tree. -/
  output : String := ""
  /-- What it printed as messages. -/
  messages : String := ""
  /-- The log, if there is one. -/
  log : Option (List LogEntry) := none
deriving DecidableEq, Repr

namespace Console

/-- Some text is printed. -/
def print (text : String) (console : Console) : Console :=
  { console with output := console.output ++ text }

/-- A message is printed on a line of its own. -/
def tell (message : String) (console : Console) : Console :=
  { console with messages := console.messages ++ message ++ "\n" }

/-- The log begins. -/
def openLog (console : Console) : Console :=
  { console with log := some [] }

/-- A further entry of the log. Without a log it is lost. -/
def record (level : LogLevel) (message : String) (console : Console) : Console :=
  { console with log := console.log.map (· ++ [⟨level, message⟩]) }

end Console

/-- What a run leaves behind. -/
structure Outcome extends Console where
  /-- The exit code: 0 without findings, 1 with findings, 2 after an error, and 101 when the run was
  broken off. -/
  code : Nat
deriving DecidableEq, Repr

/-- A part of a run, which writes and may fail. What was written before a failure stays written. -/
abbrev Run := ExceptT RunError (StateM Console)

namespace Run

/-- A further entry of the log. -/
def log (level : LogLevel) (message : String) : Run Unit :=
  modify (·.record level message)

/-- A result that may be an error. -/
def ofExcept {ε α : Type} (wrap : ε → RunError) : Except ε α → Run α
  | .ok value => pure value
  | .error cause => throw (wrap cause)

/-- The options of a run. -/
def options (files : FileSystem) (arguments : Arguments) : Run Options := do
  let options ←
    match arguments.config with
    | none => pure {}
    | some path => ofExcept (.options path) (Options.load files path)
  log .info ("Options: " ++ options.description)
  return options

/-- Trees can be made from here on. -/
def setUpParser (surroundings : Surroundings) : Run Unit :=
  match surroundings.parserError with
  | none => pure ()
  | some reason => throw (.parser (.language reason))

/-- The word by which the log counts the findings of a detector. -/
def logName (detector : Detector) : String :=
  match detector with
  | .memberTags => "member tag"
  | _ => detector.name

/-- What each detector found in a file goes into the log of a verbose run. -/
def logDetectors (options : Options) (path : String) (file : SourceFile) : Run Unit := do
  Detector.all.forM fun detector =>
    log .debug
      (path ++ ": " ++ toString (detector.findings options path file).length ++ " " ++
        logName detector ++ " findings")
  log .debug
    ("Analyzed " ++ path ++ " with " ++ toString Detector.all.length ++ " detectors, " ++
      toString (file.findings options path).length ++ " findings")

/-- The findings of one file. A file without a tree is skipped, and there are none. -/
def analyzeFile (surroundings : Surroundings) (arguments : Arguments) (options : Options)
    (path : String) : Run (Option (List Finding)) := do
  let text ← ofExcept .sources (Sources.read surroundings.files path)
  match surroundings.parse text with
  | none =>
    log .warning ("Skipping " ++ path ++ ": " ++ (AuditError.noTree path).message)
    return none
  | some file =>
    if file.isReadable then
      if arguments.verbose then logDetectors options path file
      let findings := file.findings options path
      log .info (path ++ ": " ++ toString findings.length ++ " findings")
      return some findings
    else throw (.misaligned path)

/-- The report of findings in so many files. -/
def report (arguments : Arguments) (findings : List Finding) (fileCount : Nat) : Run Unit :=
  if arguments.json then modify (·.print ((Finding.report findings).text ++ "\n"))
  else do
    findings.forM fun finding => modify (·.print (finding.display ++ "\n"))
    modify
      (·.tell
        (toString findings.length ++ " findings in " ++ toString fileCount ++ " files"))

/-- The tree of the file a run is told to look at. -/
def dump (surroundings : Surroundings) (arguments : Arguments) : Run Nat := do
  let text ← ofExcept .sources (Sources.read surroundings.files arguments.target)
  setUpParser surroundings
  match surroundings.parse text with
  | none => throw (.noTree arguments.target)
  | some file =>
    modify (·.print file.dump)
    return 0

/-- The check of everything a run is told to look at, with the number of findings. -/
def audit (surroundings : Surroundings) (arguments : Arguments) (options : Options) : Run Nat := do
  let paths ← ofExcept .sources (Sources.find surroundings.files arguments.target)
  log .info
    ("Found " ++ toString paths.length ++ " C# files under " ++ arguments.target)
  setUpParser surroundings
  let results ← paths.mapM (analyzeFile surroundings arguments options)
  let findings := Finding.sort (results.flatMap (·.getD []))
  report arguments findings paths.length
  -- The report is printed even when it is not that of all files.
  let count := results.countP (·.isNone)
  if count = 0 then return findings.length else throw (.skipped count)

/-- A whole run, once the words of its command line are understood and the log has begun. -/
def perform (surroundings : Surroundings) (commandLine : List String) (arguments : Arguments) :
    Run Nat := do
  log .info "XML doc smells starting"
  log .info
    ("Command line arguments: [" ++ ", ".intercalate (commandLine.map Text.quoted) ++ "]")
  let options ← options surroundings.files arguments
  -- The options are read even when they are of no use for a tree.
  if arguments.dumpTree then dump surroundings arguments
  else audit surroundings arguments options

end Run

/-- What a program does that is called by the given name with the given words, and its exit code. -/
def start (surroundings : Surroundings) (program : String) (words : List String) :
    StateM Console Nat := do
  match Arguments.parse words with
  | .error error =>
    (error.message :: usage program).forM fun line => modify (·.tell line)
    return 2
  | .ok arguments =>
    match surroundings.logError with
    | some cause =>
      modify (·.tell ("Failed to initialize logger: " ++ cause.message))
      return 2
    | none =>
      modify Console.openLog
      match ← (Run.perform surroundings (program :: words) arguments).run with
      | .ok 0 => return 0
      | .ok _ => return 1
      | .error error =>
        modify (·.record .error error.message)
        modify (·.tell ("Error: " ++ error.message))
        return error.code

/-- The outcome of a program called by the given name with the given words. -/
def run (surroundings : Surroundings) (program : String) (words : List String) : Outcome :=
  let (code, console) := (start surroundings program words).run {}
  { console with code }

end DocAudit.CommandLine

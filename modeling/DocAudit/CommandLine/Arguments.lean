/-!
# Arguments

The words of a command line are flags, an option file behind its flag, and one path. They may come in
any order; of several option files the last counts.
-/

namespace DocAudit.CommandLine

/-- What a run is told. -/
structure Arguments where
  /-- The file or directory to look at. -/
  target : String
  /-- The option file. -/
  config : Option String := none
  /-- The report is in JSON. -/
  json : Bool := false
  /-- The log tells what each detector found. -/
  verbose : Bool := false
  /-- The tree of one file is shown, and nothing is checked. -/
  dumpTree : Bool := false
deriving DecidableEq, Repr

/-- Why a command line was not understood. -/
inductive ArgumentError
  | missingConfigPath
  | unknownOption (option : String)
  | extraArgument (argument : String)
  | missingPath
deriving DecidableEq, Repr

/-- The error in words. -/
def ArgumentError.message : ArgumentError → String
  | missingConfigPath => "--config needs a file path"
  | unknownOption option => "Unknown option: " ++ option
  | extraArgument argument => "Unexpected extra argument: " ++ argument
  | missingPath => "Missing <path> argument"

/-- The words of a command line that were understood so far. -/
structure Words where
  /-- The path. -/
  target : Option String := none
  /-- The last option file. -/
  config : Option String := none
  /-- The report is in JSON. -/
  json : Bool := false
  /-- The log tells what each detector found. -/
  verbose : Bool := false
  /-- The tree of one file is shown. -/
  dumpTree : Bool := false
deriving DecidableEq, Repr

namespace Words

/-- The words with one more that is neither a flag nor behind one. -/
def addPath (words : Words) (path : String) : Except ArgumentError Words :=
  if path.toList.head? = some '-' then .error (.unknownOption path)
  else
    match words.target with
    | some _ => .error (.extraArgument path)
    | none => .ok { words with target := some path }

/-- The words of a command line after those understood so far. -/
def read (words : Words) : List String → Except ArgumentError Words
  | [] => .ok words
  | "--json" :: rest => { words with json := true }.read rest
  | "--verbose" :: rest => { words with verbose := true }.read rest
  | "-v" :: rest => { words with verbose := true }.read rest
  | "--dump-tree" :: rest => { words with dumpTree := true }.read rest
  | ["--config"] => .error .missingConfigPath
  | "--config" :: path :: rest => { words with config := some path }.read rest
  | path :: rest =>
    match words.addPath path with
    | .ok words => words.read rest
    | .error error => .error error

end Words

/-- What the words of a command line tell. -/
def Arguments.parse (arguments : List String) : Except ArgumentError Arguments := do
  let words ← Words.read {} arguments
  match words.target with
  | some target =>
    return { target, config := words.config, json := words.json, verbose := words.verbose,
             dumpTree := words.dumpTree }
  | none => throw .missingPath

/-- The help that follows an error in the arguments. -/
def usage (program : String) : List String :=
  ["Usage: " ++ program ++ " <path> [--config <file>] [--json] [--verbose] [--dump-tree]",
    "  <path>: A .cs file or a directory searched recursively",
    "  --config <file>: Detector options as .json, .yaml or .yml",
    "  --json: Print findings as JSON",
    "  --verbose: Write debug output to the log file",
    "  --dump-tree: Print the syntax tree of a single file and exit",
    "Exit status: 0 clean, 1 findings reported, 2 error"]

end DocAudit.CommandLine

import DocAudit.CommandLine.Run
import DocAudit.Files.Outlines

/-!
# The program

Takes a picture of the files that the command line leads to, runs, and leaves the output, the messages
and the log where they belong. Everything that is decided is decided by the run.
-/

namespace DocAudit.Program

/-- Why a file could not be used. -/
def causeOf : IO.Error → FileError
  | .noFileOrDirectory _ _ _ => .notFound
  | .permissionDenied _ _ _ => .permissionDenied
  | .inappropriateType _ _ _ => .notDirectory
  | _ => .inputOutput

/-- The path of a place, given by the names that lead to it from the root. -/
def pathOf (place : List String) :=
  ({ root := "/", fileName := "/".intercalate place } : IO.FS.DirEntry).path

/-- The names in an absolute path without links. -/
def namesOf (path : String) : List String :=
  (Path.parts path).filter (· != Path.here)

/-- What stands at a place. There is nothing to be shown of devices and pipes. -/
partial def picture (place : List String) : IO (Option FileTree) := do
  let path := pathOf place
  try
    match (← path.symlinkMetadata).type with
    | .dir =>
      try
        let inner ← (← path.readDir).toList.mapM fun entry =>
          return (← picture (place ++ [entry.fileName])).map (entry.fileName, ·)
        return some (.directory (inner.filterMap id))
      catch error => return some (.closedDirectory (causeOf error))
    | .symlink =>
      try return some (.link (← IO.FS.realPath path).toString)
      catch _ => return some (.link "")
    | .file =>
      try return some (.ofBytes (← IO.FS.readBinFile path))
      catch error => return some (.closedFile (causeOf error))
    | .other => return none
  catch error => return some (.untold (causeOf error))

/-- The tree with what stands at a place put in. -/
def put (tree : FileTree) (place : List String) : IO FileTree := do
  match ← picture place with
  | some entry => return entry.insertAt tree place
  | none => return tree

/-- The tree with all that a path needs put in: the links and directories on its way from a place, and
what it leads to. -/
partial def follow (tree : FileTree) (place : List String) : List String → IO FileTree
  | [] => put tree place
  | part :: parts => do
    if part = Path.here then follow tree place parts
    else if part = Path.parent then follow tree place.dropLast parts
    else
      let next := place ++ [part]
      let tree := FileTree.empty.insertAt tree place
      try
        match (← (pathOf next).symlinkMetadata).type with
        | .dir => follow tree next parts
        | .symlink =>
          let target := (← IO.FS.realPath (pathOf next)).toString
          follow (FileTree.insertAt (.link target) tree next) (namesOf target) parts
        | _ => put (← put tree next) (place ++ [part ++ Outlines.extension])
      catch error =>
        match causeOf error with
        | .notFound => return tree
        | cause => return FileTree.insertAt (.untold cause) tree next

/-- The files that the command line leads to. -/
def readFiles (arguments : CommandLine.Arguments) : IO FileSystem := do
  let place := namesOf (← IO.currentDir).toString
  let mut tree := FileTree.empty.insertAt .empty place
  for path in arguments.target :: arguments.config.toList do
    tree ← follow tree (if Path.isAbsolute path then [] else place) (Path.parts path)
  return ⟨tree.entries, place⟩

/-- The directory for the data of programs. -/
def dataDirectory : IO String := do
  match ← IO.getEnv "XDG_DATA_HOME" with
  | some directory => return directory
  | none => return (← IO.getEnv "HOME").getD "." ++ "/.local/share"

/-- The log file, emptied. -/
def openLog : IO (Except FileError String) := do
  try
    let directory := (← dataDirectory) ++ "/XmlDocSmells"
    IO.FS.createDirAll directory
    let path := directory ++ "/xmldoc_smells.log"
    IO.FS.writeFile path ""
    return .ok path
  catch error => return .error (causeOf error)

end DocAudit.Program

open DocAudit DocAudit.Program in
/-- Runs in the working directory with the given words. -/
def main (words : List String) : IO UInt32 := do
  let program := (← IO.appPath).toString
  -- Words that are not understood lead to no files, and to no log.
  let (files, log) ←
    match CommandLine.Arguments.parse words with
    | .ok arguments => pure (← readFiles arguments, ← openLog)
    | .error _ => pure (⟨[], []⟩, .error .notFound)
  let logError :=
    match log with
    | .ok _ => none
    | .error cause => some cause
  let outcome := CommandLine.run { files, parse := Outlines.parse files, logError } program words
  IO.print outcome.output
  IO.eprint outcome.messages
  match log, outcome.log with
  | .ok path, some entries =>
    IO.FS.writeFile path (String.join (entries.map fun entry => entry.text ++ "\n"))
  | _, _ => pure ()
  return outcome.code.toUInt32

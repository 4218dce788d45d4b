import DocAudit.Files.System

/-!
# Source files

The C# files a run looks at: one file, or every file below a directory. Directories of build products
and hidden directories are passed over, links are neither followed nor counted, and the files come in
the order of their paths, part by part. No file is found when one of the directories that are searched
cannot be listed to its end.
-/

namespace DocAudit

/-- Why the sources of a run could not be found or read. -/
inductive SourceError
  /-- The path of the run leads nowhere. -/
  | invalidTarget (path : String) (cause : FileError)
  /-- The path of the run leads to a file of another kind. -/
  | notSource (path : String)
  /-- A directory could not be listed. -/
  | unlistable (path : String) (cause : FileError)
  /-- An entry of a directory could not be told about. -/
  | untold (cause : FileError)
  /-- A source file could not be read. -/
  | unreadable (path : String) (cause : FileError)
deriving DecidableEq, Repr

/-- The error in words. -/
def SourceError.message : SourceError → String
  | invalidTarget path cause => "Invalid target path: " ++ path ++ ": " ++ cause.message
  | notSource path => "Not a C# source file: " ++ path
  | unlistable path cause => "Failed to read directory: " ++ path ++ ": " ++ cause.message
  | untold cause => cause.message
  | unreadable path cause => "Failed to read source file: " ++ path ++ ": " ++ cause.message

namespace Sources

/-- The extension of source files, in whatever case. -/
def sourceExtension : String := "cs"

/-- The names of directories that hold build products. -/
def skippedDirectories : List String := ["bin", "obj"]

/-- A file of this name is a source file. An extension that is no text would not be that of one. -/
def isSourceName (name : String) : Bool :=
  (Path.extensionOf? name).any fun extension => Path.lowercase extension == sourceExtension

/-- A directory of this name is passed over. One whose name is no text would be searched. -/
def isSkipped (name : String) : Bool :=
  name.toList.head? == some '.' || skippedDirectories.contains name

/-- The source files in and below the directory at a path, each as the names that lead to it from
there. -/
def search (path : String) : FileTree.Directory → Except SourceError (List (List String))
  | [] => .ok []
  | (name, .file _) :: entries | (name, .closedFile _) :: entries => do
    let later ← search path entries
    return (if isSourceName name then [[name]] else []) ++ later
  | (name, .directory inner) :: entries => do
    let first ← (if isSkipped name then .ok [] else search (Path.join path name) inner)
    let later ← search path entries
    return first.map (name :: ·) ++ later
  | (name, .closedDirectory cause) :: entries =>
    -- A directory that is passed over need not be listed.
    if isSkipped name then search path entries
    else .error (.unlistable (Path.join path name) cause)
  | (_, .link _) :: entries => search path entries
  | (_, .untold cause) :: _ => .error (.untold cause)

/-- Lists of names in the order of paths. -/
def sorted (places : List (List String)) : List (List String) :=
  places.mergeSort fun a b => (Path.order a b).isLE

/-- The path that names lead to from a directory. -/
def pathBelow (target : String) (names : List String) : String :=
  names.foldl Path.join target

/-- The paths of the source files at a path. -/
def find (files : FileSystem) (target : String) : Except SourceError (List String) :=
  match files.resolve target with
  | .error cause => .error (.invalidTarget target cause)
  | .ok (.directory entries) =>
    (search target entries).map fun places => (sorted places).map (pathBelow target)
  | .ok (.closedDirectory cause) => .error (.unlistable target cause)
  | .ok _ =>
    if (Path.fileName? target).any isSourceName then .ok [target] else .error (.notSource target)

/-- The text of a source file. -/
def read (files : FileSystem) (path : String) : Except SourceError String :=
  (files.read path).mapError (.unreadable path)

end Sources
end DocAudit

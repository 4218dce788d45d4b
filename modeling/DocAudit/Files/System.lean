import DocAudit.Files.Tree

/-!
# Systems of files

A run works in a directory somewhere below the root of all directories. A path is followed part by part,
from the root if it is absolute, and else from that directory. Links on the way are followed too. The
root is its own parent.
-/

namespace DocAudit

namespace FileTree

/-- The number of links that are followed for one path. -/
def linkLimit : Nat := 40

/-- What the parts of a path lead to from a directory, given the root, the directories above, innermost
first, and the number of links that may still be followed. -/
def walk (root : Directory) (links : Nat) (above : List Directory) (entries : Directory) :
    List String → Except FileError FileTree
  | [] => .ok (.directory entries)
  | part :: parts =>
    if part = Path.here then walk root links above entries parts
    else if part = Path.parent then
      match above with
      -- The directory at the top is its own parent.
      | [] => walk root links [] entries parts
      | outer :: above => walk root links above outer parts
    else
      match lookup? entries part with
      | none => .error .notFound
      | some (.directory inner) => walk root links (entries :: above) inner parts
      | some (.link target) =>
        match links with
        | 0 => .error .tooManyLinks
        | links + 1 =>
          if target.isEmpty then .error .notFound
          else if Path.isAbsolute target then
            walk root links [] root (Path.parts target ++ parts)
          -- A link is followed from the directory it stands in.
          else walk root links above entries (Path.parts target ++ parts)
      | some (.untold cause) => .error cause
      -- Anything else ends a path.
      | some entry => if parts.isEmpty then .ok entry else .error entry.barrier
termination_by parts => (links, parts.length)

end FileTree

/-- All files, and where among them a run works. -/
structure FileSystem where
  /-- What the root of all directories holds. -/
  root : FileTree.Directory
  /-- The names that lead from the root to the directory where a run works. -/
  place : List String
deriving Repr

namespace FileSystem

/-- The parts that lead from the root to where a path leads. -/
def parts (files : FileSystem) (path : String) : List String :=
  if Path.isAbsolute path then Path.parts path else files.place ++ Path.parts path

/-- The file or directory a path leads to. -/
def resolve (files : FileSystem) (path : String) : Except FileError FileTree :=
  if path.isEmpty then .error .notFound
  else FileTree.walk files.root FileTree.linkLimit [] files.root (files.parts path)

/-- The text of the file a path leads to. -/
def read (files : FileSystem) (path : String) : Except FileError String :=
  match files.resolve path with
  | .ok (.file (some text)) => .ok text
  | .ok (.file none) => .error .notText
  | .ok (.closedFile cause) => .error cause
  | .ok (.closedDirectory cause) => .error cause
  | .ok _ => .error .isDirectory
  | .error cause => .error cause

/-- The name under which the root holds a directory that is given by itself. -/
def workName : String := "work"

/-- A system that holds nothing but the directory where a run works. -/
def around (tree : FileTree) : FileSystem :=
  ⟨[(workName, tree)], [workName]⟩

instance : Coe FileTree FileSystem := ⟨around⟩

end FileSystem
end DocAudit

import DocAudit.Files.Path

/-!
# Trees of files

What a directory holds: files, directories and symbolic links, and what the system refuses to show of
them. Names are texts: of an entry whose name is no UTF-8, and of devices and pipes, nothing is said.
-/

namespace DocAudit

/-- Why a file could not be used. -/
inductive FileError
  | notFound
  | notDirectory
  | isDirectory
  | tooManyLinks
  | permissionDenied
  /-- The device failed. -/
  | inputOutput
  /-- The bytes of the file are no UTF-8 text. -/
  | notText
deriving DecidableEq, Repr

/-- The cause in words. -/
def FileError.message : FileError → String
  | notFound => "No such file or directory (os error 2)"
  | notDirectory => "Not a directory (os error 20)"
  | isDirectory => "Is a directory (os error 21)"
  | tooManyLinks => "Too many levels of symbolic links (os error 40)"
  | permissionDenied => "Permission denied (os error 13)"
  | inputOutput => "Input/output error (os error 5)"
  | notText => "stream did not contain valid UTF-8"

/-- Something in a directory. -/
inductive FileTree
  /-- A file with its text, or none when its bytes are no UTF-8 text. -/
  | file (text : Option String)
  /-- A directory with its entries by name. -/
  | directory (entries : List (String × FileTree))
  /-- A symbolic link with the path it leads to. -/
  | link (target : String)
  /-- A file that cannot be read. -/
  | closedFile (cause : FileError)
  /-- A directory that can neither be listed nor passed through. -/
  | closedDirectory (cause : FileError)
  /-- An entry that nothing can be told about. Listing the directory fails when it comes to it. -/
  | untold (cause : FileError)
deriving Repr

namespace FileTree

/-- The entries of a directory. -/
abbrev Directory := List (String × FileTree)

/-- An empty directory. -/
def empty : FileTree := .directory []

/-- A file of the given bytes. -/
def ofBytes (bytes : ByteArray) : FileTree :=
  .file (String.fromUTF8? bytes)

/-- The entry of a name. -/
def lookup? (entries : Directory) (name : String) : Option FileTree :=
  (entries.find? (·.1 == name)).map (·.2)

/-- The entries of a directory; there are none in anything else. -/
def entries : FileTree → Directory
  | directory entries => entries
  | _ => []

/-- Why no path goes on behind something that is no open directory. -/
def barrier : FileTree → FileError
  | closedDirectory cause => cause
  | _ => .notDirectory

/-! ## Building a tree -/

/-- The names that lead to the same place without parts for this and the parent directory. -/
def normalize (names : List String) : List String → List String
  | [] => names
  | part :: parts =>
    if part = Path.here then normalize names parts
    else if part = Path.parent then normalize names.dropLast parts
    else normalize (names ++ [part]) parts

/-- The directory with an entry put in place of any other of its name. -/
def put (entries : Directory) (name : String) (entry : FileTree) : Directory :=
  entries.filter (·.1 != name) ++ [(name, entry)]

/-- The tree with an entry at the place given by names. Directories on the way are made, and a
directory that exists is kept when a directory is put in its place. -/
def insertAt (entry tree : FileTree) : List String → FileTree
  | [] =>
    match entry, tree with
    -- A directory that is there already keeps what is in it.
    | .directory [], .directory entries => .directory entries
    | _, _ => entry
  | name :: names =>
    let inner := (lookup? tree.entries name).getD empty
    .directory (put tree.entries name (insertAt entry inner names))

/-- The tree with an empty directory at each directory that a path passes through. -/
def makeParents (tree : FileTree) (names : List String) : List String → FileTree
  | [] => tree
  | [_] => tree
  | part :: parts =>
    let place := normalize names [part]
    makeParents (insertAt empty tree place) place parts

/-- The tree with an entry at a path. Directories on the way are made. -/
def insert (tree : FileTree) (path : String) (entry : FileTree) : FileTree :=
  let parts := Path.parts path
  insertAt entry (tree.makeParents [] parts) (normalize [] parts)

end FileTree
end DocAudit

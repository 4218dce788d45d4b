import DocAudit.Text.Basic

/-!
# Paths

A path is a string whose parts are separated by slashes. Paths are printed as they are written; where
they lead, and how they are ordered, goes by their parts.
-/

namespace DocAudit.Path

/-- The part that stays in the same directory. -/
def here : String := "."

/-- The part that leads to the parent directory. -/
def parent : String := ".."

/-- The parts of a path. Nothing between two slashes, or behind the last, stays in place. -/
def parts (path : String) : List String :=
  (Text.splitAt '/' path.toList).map fun part =>
    if part.isEmpty then here else String.ofList part

/-- The path starts at the root of all directories. -/
def isAbsolute (path : String) : Bool :=
  path.toList.head? == some '/'

/-- The last name in a path; there is none when the last part leads to a parent directory. -/
def fileName? (path : String) : Option String :=
  ((parts path).filter (· != here)).getLast?.filter (· != parent)

/-- The part of a file name behind its last dot, unless that dot begins the name. -/
def extensionOf? (name : String) : Option String :=
  match Text.splitAt '.' name.toList.reverse with
  | [] => none
  | [_] => none
  | [_, []] => none
  | extension :: _ => some (String.ofList extension.reverse)

/-- The extension of the file a path leads to. -/
def extension? (path : String) : Option String :=
  (fileName? path).bind extensionOf?

/-- A name in a directory. -/
def join (directory name : String) : String :=
  if directory.toList.getLast? == some '/' then directory ++ name else directory ++ "/" ++ name

/-- The order of paths by their parts. -/
def order : List String → List String → Ordering
  | [], [] => .eq
  | [], _ :: _ => .lt
  | _ :: _, [] => .gt
  | a :: as, b :: bs => (compare a b).then (order as bs)

/-- The text with the letters A to Z in lower case. -/
def lowercase (text : String) : String :=
  String.ofList (text.toList.map Char.toLower)

end DocAudit.Path

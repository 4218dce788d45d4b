import DocAudit.Code.Node
import DocAudit.Text.Replace

/-!
# Dumps of trees

A readable picture of a tree: a heading, one line per node with its role, kind, place and text, and
the number of nodes of each kind. Places in a dump count bytes, also within a line.
-/

namespace DocAudit.Code

open DocAudit.Text

/-- The number of the row of a byte offset, from one: a row ends with a line feed. -/
def rowOf (source : List Char) (offset : Nat) : Nat :=
  (takeBytes offset source).count '\n' + 1

/-- The number of the byte in its row, from one. -/
def byteColumnOf (source : List Char) (offset : Nat) : Nat :=
  byteLength ((takeBytes offset source).reverse.takeWhile (· != '\n')) + 1

/-- The number of characters up to which the text of a node is shown whole. -/
def shownWhole : Nat := 50

/-- The number of characters shown of a longer text. -/
def shownOfLonger : Nat := 47

/-- The text of a node as a dump shows it: cut when long, on one line. -/
def shownText (cs : List Char) : List Char :=
  let shown := if cs.length > shownWhole then cs.take shownOfLonger ++ "...".toList else cs
  shown.flatMap fun c =>
    if c = '\n' then ['\\', 'n'] else if c = '\t' then ['\\', 't']
    else if c = '\r' then ['\\', 'r'] else [c]

/-- The line of one node. -/
def nodeLine (source : List Char) (depth : Nat) (node : Node) : String :=
  let indent := String.ofList (List.replicate (2 * depth) ' ')
  let role :=
    match node.label.field with
    | some field => field ++ ": "
    | none => ""
  let place := toString (rowOf source node.start) ++ ":" ++ toString (byteColumnOf source node.start)
  indent ++ role ++ node.kind ++ "[" ++ place ++ "] '" ++
    String.ofList (shownText (node.text source)) ++ "'"

mutual

/-- The lines of a tree whose root stands at the given depth. -/
def treeLines (source : List Char) (depth : Nat) : Node → List String
  | .mk label children =>
    nodeLine source depth (.mk label children) :: forestLines source (depth + 1) children

/-- The lines of trees that stand at one depth. -/
def forestLines (source : List Char) (depth : Nat) : List Node → List String
  | [] => []
  | node :: nodes => treeLines source depth node ++ forestLines source depth nodes

end

/-- The kinds of a list of nodes in alphabetical order, each with the number of its nodes. -/
def countKinds (nodes : List Node) : List (String × Nat) :=
  let kinds := nodes.map Node.kind
  (kinds.eraseDups.mergeSort fun a b => decide (a ≤ b)).map fun kind => (kind, kinds.count kind)

/-- The kinds of nodes of a tree in alphabetical order, each with the number of its nodes. -/
def kindCounts (root : Node) : List (String × Nat) :=
  countKinds root.preorder

/-- The picture of a source file. -/
def SourceFile.dump (file : SourceFile) : String :=
  let heading :=
    ["=== C# Syntax Tree ===",
      "Content size: " ++ toString (byteLength file.text) ++ " bytes",
      "Tree has errors: " ++ toString file.hasErrors,
      ""]
  let counts := (kindCounts file.root).map fun (kind, count) => kind ++ ": " ++ toString count
  let lines :=
    heading ++ treeLines file.text 0 file.root ++ ["", "=== Tree Statistics ==="] ++ counts
  String.join (lines.map (· ++ "\n"))

end DocAudit.Code

import DocAudit.Comment.Basic

/-!
# Finding doc comments

Comments that follow one another among the children of a node form a run; the doc comments of a run
are read as one. Plain comments in between are left out and do not end the run, any other node does.
The doc comment of a node is that of the run directly in front of it.
-/

namespace DocAudit

open Code

namespace Comment

/-- The comment node is a doc comment. -/
def isDocNode (source : List Char) (node : Node) : Bool :=
  node.isComment && isDocText (node.text source)

/-- A run as a list of runs: none when it is empty. -/
def closeRun (run : List Node) : List (List Node) :=
  if run.isEmpty then [] else [run]

mutual

/-- The runs of doc comments below a node, in the order of the text. -/
def runsBelow (source : List Char) : Node → List (List Node)
  | .mk _ children => runsAmong source [] children

/-- The runs of doc comments among siblings and below them, where `run` has already begun. -/
def runsAmong (source : List Char) (run : List Node) : List Node → List (List Node)
  | [] => closeRun run
  | node :: nodes =>
    -- A plain comment is left out without ending the run.
    if node.isComment then
      runsAmong source (if isDocText (node.text source) then run ++ [node] else run) nodes
    else closeRun run ++ runsBelow source node ++ runsAmong source [] nodes

end

/-- The doc comments of the run of comments in front of a node, given its earlier siblings, nearest
first. The result is in the order of the text. -/
def runBefore (source : List Char) (earlier : List Node) : List Node :=
  ((earlier.takeWhile Node.isComment).filter fun node => isDocText (node.text source)).reverse

end Comment

/-- Every doc comment below a node, in the order of the text. -/
def DocComment.allBelow (source : List Char) (root : Node) : List DocComment :=
  (Comment.runsBelow source root).filterMap (ofNodes? source)

/-- The doc comment directly in front of a node, given its earlier siblings, nearest first. -/
def DocComment.before? (source : List Char) (earlier : List Node) : Option DocComment :=
  ofNodes? source (Comment.runBefore source earlier)

/-- Every doc comment of a source file, in the order of the text. -/
def Code.SourceFile.docComments (file : SourceFile) : List DocComment :=
  DocComment.allBelow file.text file.root

end DocAudit

import DocAudit.Code.Outline
import DocAudit.Files.System

/-!
# Outlines beside sources

The tree of a source file is kept in a file beside it, whose name is that of the source with an
extension added.
-/

namespace DocAudit

namespace Code

/-- The node does not fit the language, or is missing. -/
def Node.isFaulty (node : Node) : Bool :=
  node.label.isMissing || node.kind == "ERROR"

/-- The source file of a text and the root of its tree. -/
def SourceFile.ofRoot (text : String) (root : Node) : SourceFile :=
  ⟨text.toList, root, root.preorder.any Node.isFaulty⟩

end Code

namespace Outlines

/-- What is added to the name of a source for the name of its outline. -/
def extension : String := ".outline"

/-- The source file of a text with the outline of a given name beside it. -/
def sourceFile? (beside : FileTree.Directory) (name text : String) : Option Code.SourceFile :=
  match FileTree.lookup? beside (name ++ extension) with
  | some (.file (some outline)) => (Code.Outline.parse? outline.toList).map (.ofRoot text)
  | _ => none

/-- The source files that have an outline among `beside`, and those in the directories of a list of
entries. -/
def collect (beside : FileTree.Directory) : FileTree.Directory → List (String × Code.SourceFile)
  | [] => []
  | (name, .file (some text)) :: entries =>
    ((sourceFile? beside name text).map fun file => (text, file)).toList ++ collect beside entries
  | (_, .directory inner) :: entries => collect inner inner ++ collect beside entries
  | _ :: entries => collect beside entries

/-- The source file of a text, if some source of that text has an outline beside it. -/
def parse (files : FileSystem) : String → Option Code.SourceFile :=
  let known := collect files.root files.root
  fun text => (known.find? (·.1 == text)).map (·.2)

end Outlines
end DocAudit

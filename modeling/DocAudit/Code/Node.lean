import DocAudit.Text.Basic

/-!
# Trees of source code

A source text comes with a tree that says what each stretch of it is: a node has a kind, a byte
range, the role it plays in its parent, and its children in the order of the text. Named nodes are
the constructs of the language, the others its keywords and punctuation; a missing node stands for
something that ought to be in the text and is not.
-/

namespace DocAudit.Code

/-- What a tree says about one node. -/
structure Label where
  /-- What the stretch of text is, such as `method_declaration`, `identifier` or `throw`. -/
  kind : String
  /-- The node is a construct of the language, not a mere word or sign. -/
  isNamed : Bool
  /-- The node was put in by recovery and has no text. -/
  isMissing : Bool
  /-- The byte offset where the node starts. -/
  start : Nat
  /-- The byte offset just past the node. -/
  stop : Nat
  /-- The role of the node in its parent. -/
  field : Option String
deriving DecidableEq, Repr

/-- A node of a tree of source code. -/
inductive Node
  /-- A node with its children in the order of the text. -/
  | mk (label : Label) (children : List Node)
deriving Repr

namespace Node

/-- What the tree says about the node. -/
def label : Node → Label
  | mk label _ => label

/-- The children in the order of the text. -/
def children : Node → List Node
  | mk _ children => children

/-- What the stretch of text is. -/
def kind (node : Node) : String :=
  node.label.kind

/-- Where the node starts. -/
def start (node : Node) : Nat :=
  node.label.start

/-- Where the node stops. -/
def stop (node : Node) : Nat :=
  node.label.stop

/-- The text of the node. -/
def text (source : List Char) (node : Node) : List Char :=
  Text.slice node.start node.stop source

/-- The text of the node as a string. -/
def string (source : List Char) (node : Node) : String :=
  String.ofList (node.text source)

/-- The first child with the given role. -/
def childInField? (field : String) (node : Node) : Option Node :=
  node.children.find? (·.label.field == some field)

/-- The first child of the given kind. -/
def childOfKind? (kind : String) (node : Node) : Option Node :=
  node.children.find? (·.kind == kind)

mutual

/-- The node followed by all nodes below it, in the order of the text. -/
def preorder : Node → List Node
  | mk label children => mk label children :: preorderOfAll children

/-- All nodes of a list of trees. -/
def preorderOfAll : List Node → List Node
  | [] => []
  | node :: nodes => node.preorder ++ preorderOfAll nodes

end

/-- The kind of comments. -/
def commentKind : String := "comment"

/-- The node is a comment. -/
def isComment (node : Node) : Bool :=
  node.kind == commentKind

end Node

/-- A source text with its tree. -/
structure SourceFile where
  /-- The text. -/
  text : List Char
  /-- The root of its tree. -/
  root : Node
  /-- The tree holds a node that does not fit the language. -/
  hasErrors : Bool
deriving Repr

end DocAudit.Code

import DocAudit.Declaration.Basic

/-!
# Finding declarations

The declarations of a source file in the order of the text. Namespaces and types are searched for
declarations inside them, and so is every node that is no declaration; the inside of a member holds
statements and is not searched.
-/

namespace DocAudit

open Code Text

namespace Declaration

/-- The kind of identifiers. -/
def identifierKind : String := "identifier"

/-- The role of the node that names another. -/
def nameField : String := "name"

/-- The last child that is an identifier. -/
def lastIdentifier? (node : Node) : Option Node :=
  (node.children.filter (·.kind == identifierKind)).getLast?

/-- The node that names a parameter: the one in the role of the name, else the last identifier, else
the parameter itself when it is an identifier. -/
def parameterNameNode? (node : Node) : Option Node :=
  ((node.childInField? nameField).or (lastIdentifier? node)).or
    (if node.kind == identifierKind then some node else none)

/-- The name of a parameter or type parameter, unless it is blank. -/
def declaredName? (source : List Char) (node : Node) : Option DeclaredName := do
  let nameNode ← parameterNameNode? node
  let name := trim (nameNode.text source)
  if name.isEmpty then none else some ⟨String.ofList name, nameNode.start⟩

/-- The names declared by the children of the given kinds. -/
def declaredNames (source : List Char) (kinds : List String) (list : Option Node) :
    List DeclaredName :=
  match list with
  | none => []
  | some list =>
    (list.children.filter fun child => kinds.contains child.kind).filterMap (declaredName? source)

/-- The parameters of a declaration. -/
def parametersOf (source : List Char) (node : Node) : List DeclaredName :=
  declaredNames source ["parameter", "parameter_array"] (node.childInField? "parameters")

/-- The type parameters of a declaration; the list stands in its role or is a plain child. -/
def typeParametersOf (source : List Char) (node : Node) : List DeclaredName :=
  declaredNames source ["type_parameter", identifierKind]
    ((node.childInField? "type_parameters").or (node.childOfKind? "type_parameter_list"))

/-- Whether a declaration gives a value back: its return type is the word `void` or it is not. -/
def returnShapeOf (source : List Char) (node : Node) : ReturnShape :=
  match (node.childInField? "returns").or (node.childInField? "type") with
  | some type => if trim (type.text source) = "void".toList then .void else .value
  | none => .value

/-- The role of a body. -/
def bodyOf? (node : Node) : Option Node :=
  node.childInField? "body"

/-- The accessors of a property, event or indexer, or the expression in their place. -/
def accessorsOf? (node : Node) : Option Node :=
  ((node.childInField? "accessors").or (node.childInField? "value")).or (bodyOf? node)

/-- The declaration a node makes, if it makes one. -/
def form? (source : List Char) (node : Node) : Option DeclarationForm :=
  match node.kind with
  | "namespace_declaration" | "file_scoped_namespace_declaration" => some .namespaceScope
  | "class_declaration" | "struct_declaration" | "interface_declaration" | "record_declaration"
  | "record_struct_declaration" | "enum_declaration" =>
    some (.type (typeParametersOf source node))
  | "method_declaration" =>
    some (.method (parametersOf source node) (typeParametersOf source node)
      (returnShapeOf source node) (bodyOf? node))
  | "constructor_declaration" => some (.constructor (parametersOf source node) (bodyOf? node))
  | "property_declaration" => some (.property (accessorsOf? node))
  | "field_declaration" => some .field
  | "event_declaration" => some (.event (accessorsOf? node))
  | "event_field_declaration" => some .eventField
  | "enum_member_declaration" => some .enumMember
  | "delegate_declaration" =>
    some (.delegate (parametersOf source node) (typeParametersOf source node)
      (returnShapeOf source node))
  | "operator_declaration" =>
    some (.operator (parametersOf source node) (returnShapeOf source node) (bodyOf? node))
  | "conversion_operator_declaration" =>
    some (.conversionOperator (parametersOf source node) (bodyOf? node))
  | "indexer_declaration" => some (.indexer (parametersOf source node) (accessorsOf? node))
  | _ => none

/-- The node in the role of the name, else the first identifier among the children. -/
def nameNode? (node : Node) : Option Node :=
  (node.childInField? nameField).or (node.childOfKind? identifierKind)

/-- The name and place given by a name node; no name at the start of `node` without one. -/
def nameAt (source : List Char) (node : Node) : Option Node → String × Nat
  | some nameNode => (nameNode.string source, nameNode.start)
  | none => ("", node.start)

/-- The first declarator of a field. -/
def declarator? (node : Node) : Option Node :=
  (node.childOfKind? "variable_declaration").bind (·.childOfKind? "variable_declarator")

/-- The place of the first child of a kind, or else of the node. -/
def anchorAt (kind : String) (node : Node) : Nat :=
  ((node.childOfKind? kind).map Node.start).getD node.start

/-- The sign an operator defines, or the type a conversion leads to. -/
def operatorTarget (source : List Char) (node : Node) : String :=
  (((node.childInField? "operator").or (node.childInField? "type")).map (·.string source)).getD ""

/-- The name of a declaration and the place that stands for it. -/
def nameAndAnchor (source : List Char) (node : Node) : MemberKind → String × Nat
  | .field | .eventField => nameAt source node ((declarator? node).bind nameNode?)
  | .indexer => ("this[]", anchorAt "this" node)
  | .operator | .conversionOperator =>
    ("operator " ++ operatorTarget source node, anchorAt "operator" node)
  | _ => nameAt source node (nameNode? node)

/-- The declaration a node makes, given its earlier siblings, nearest first. -/
def ofNode? (source : List Char) (earlier : List Node) (node : Node) : Option Declaration :=
  (form? source node).map fun form =>
    let (name, anchor) := nameAndAnchor source node form.kind
    { form, name, anchor, node, doc := DocComment.before? source earlier }

/-- What is declared in a node is searched for further declarations, unless it is a member. -/
def isSearched : Option Declaration → Bool
  | some declaration => declaration.form.isContainer
  | none => true

mutual

/-- The declarations a node makes and holds, given its earlier siblings, nearest first. -/
def collect (source : List Char) (earlier : List Node) : Node → List Declaration
  | .mk label children =>
    let made := ofNode? source earlier (.mk label children)
    -- Children have no earlier siblings from outside their parent.
    made.toList ++ (if isSearched made then collectAmong source [] children else [])

/-- The declarations of siblings, given those before them, nearest first. -/
def collectAmong (source : List Char) (earlier : List Node) : List Node → List Declaration
  | [] => []
  | node :: nodes => collect source earlier node ++ collectAmong source (node :: earlier) nodes

end

end Declaration

/-- Every declaration of a source file that can be documented, in the order of the text. -/
def Code.SourceFile.declarations (file : SourceFile) : List Declaration :=
  Declaration.collect file.text [] file.root

end DocAudit

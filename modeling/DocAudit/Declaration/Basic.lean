import DocAudit.Comment.Collect
import DocAudit.Declaration.Kind

/-!
# Declarations

A declaration that can be documented: its kind with what the checks need to know about it, its name,
the place that stands for it in reports, its node, and the doc comment in front of it.
-/

namespace DocAudit

/-- A declared parameter or type parameter. -/
structure DeclaredName where
  /-- The name. -/
  name : String
  /-- The byte offset of the identifier. -/
  position : Nat
deriving DecidableEq, Repr

/-- Whether a member gives a value back. -/
inductive ReturnShape
  | void
  | value
deriving DecidableEq, Repr

/-- A kind of declaration with its parts. -/
inductive DeclarationForm
  | namespaceScope
  /-- A class, struct, interface, record or enumeration. -/
  | type (typeParameters : List DeclaredName)
  | method (parameters typeParameters : List DeclaredName) (returns : ReturnShape)
      (body : Option Code.Node)
  | constructor (parameters : List DeclaredName) (body : Option Code.Node)
  | property (body : Option Code.Node)
  | field
  | event (body : Option Code.Node)
  | eventField
  | enumMember
  | delegate (parameters typeParameters : List DeclaredName) (returns : ReturnShape)
  | operator (parameters : List DeclaredName) (returns : ReturnShape) (body : Option Code.Node)
  | conversionOperator (parameters : List DeclaredName) (body : Option Code.Node)
  | indexer (parameters : List DeclaredName) (body : Option Code.Node)

namespace DeclarationForm

/-- The kind of the declaration. -/
def kind : DeclarationForm → MemberKind
  | namespaceScope => .namespaceScope
  | type _ => .type
  | method _ _ _ _ => .method
  | constructor _ _ => .constructor
  | property _ => .property
  | field => .field
  | event _ => .event
  | eventField => .eventField
  | enumMember => .enumMember
  | delegate _ _ _ => .delegate
  | operator _ _ _ => .operator
  | conversionOperator _ _ => .conversionOperator
  | indexer _ _ => .indexer

/-- The declaration holds declarations of its own. -/
def isContainer : DeclarationForm → Bool
  | namespaceScope | type _ => true
  | _ => false

/-- The parameters, for the kinds that have a parameter list. -/
def parameters? : DeclarationForm → Option (List DeclaredName)
  | method parameters _ _ _ => some parameters
  | constructor parameters _ => some parameters
  | delegate parameters _ _ => some parameters
  | operator parameters _ _ => some parameters
  | conversionOperator parameters _ => some parameters
  | indexer parameters _ => some parameters
  | _ => none

/-- The type parameters, for the kinds that can be generic. -/
def typeParameters? : DeclarationForm → Option (List DeclaredName)
  | type typeParameters => some typeParameters
  | method _ typeParameters _ _ => some typeParameters
  | delegate _ typeParameters _ => some typeParameters
  | _ => none

/-- Whether a value is given back, for the kinds for which that is a question. A conversion always
gives a value. -/
def returns? : DeclarationForm → Option ReturnShape
  | method _ _ returns _ => some returns
  | delegate _ _ returns => some returns
  | operator _ returns _ => some returns
  | conversionOperator _ _ => some .value
  | _ => none

/-- The block, the expression or the accessors that run. -/
def body? : DeclarationForm → Option Code.Node
  | method _ _ _ body => body
  | constructor _ body => body
  | property body => body
  | event body => body
  | operator _ _ body => body
  | conversionOperator _ body => body
  | indexer _ body => body
  | _ => none

end DeclarationForm

/-- A declaration that can be documented. -/
structure Declaration where
  /-- The kind with its parts. -/
  form : DeclarationForm
  /-- The name, empty when the declaration has none. -/
  name : String
  /-- The byte offset that stands for the declaration where there is no finer place. -/
  anchor : Nat
  /-- The node of the declaration. -/
  node : Code.Node
  /-- The doc comment in front of it. -/
  doc : Option DocComment

namespace Declaration

/-- The kind of the declaration. -/
def kind (declaration : Declaration) : MemberKind :=
  declaration.form.kind

/-- A text up to its first line break; a carriage return alone does not break a line. -/
def firstLine : List Char → List Char
  | [] => []
  | '\n' :: _ => []
  | '\r' :: '\n' :: _ => []
  | c :: cs => c :: firstLine cs

/-- The first line of the declaration. -/
def heading (source : List Char) (declaration : Declaration) : List Char :=
  firstLine (declaration.node.text source)

end Declaration
end DocAudit

/-!
# Kinds of members

The kinds of declarations that can carry a doc comment.
-/

namespace DocAudit

/-- A kind of documentable declaration. -/
inductive MemberKind
  | namespaceScope
  | type
  | method
  | constructor
  | property
  | field
  | event
  | eventField
  | enumMember
  | delegate
  | operator
  | conversionOperator
  | indexer
deriving DecidableEq, Repr

namespace MemberKind

/-- Every kind of member. -/
def all : List MemberKind :=
  [namespaceScope, type, method, constructor, property, field, event, eventField, enumMember, delegate,
    operator, conversionOperator, indexer]

/-- The word for the kind in messages. -/
def displayName : MemberKind → String
  | namespaceScope => "namespace"
  | type => "type"
  | method => "method"
  | constructor => "constructor"
  | property => "property"
  | field => "field"
  | event => "event"
  | eventField => "event field"
  | enumMember => "enum member"
  | delegate => "delegate"
  | operator => "operator"
  | conversionOperator => "conversion operator"
  | indexer => "indexer"

end MemberKind
end DocAudit

import DocAudit.Declaration.Kind

/-!
# The vocabulary of doc tags

Which tag names are known, which of them wrap content and need an end tag, which render a reference,
and which may stand at the top level of the comment of a given kind of member.
-/

namespace DocAudit.Vocabulary

/-- The tags of doc comments, with the plain markup that is accepted beside them. -/
def knownTags : List String :=
  ["summary", "remarks", "returns", "value", "param", "paramref", "typeparam", "typeparamref",
    "exception", "example", "code", "c", "para", "list", "listheader", "item", "term", "description",
    "see", "seealso", "inheritdoc", "include", "permission", "br", "b", "i", "u", "a"]

/-- The tags that wrap content and need an end tag unless they close themselves. -/
def containerTags : List String :=
  ["summary", "remarks", "returns", "value", "param", "typeparam", "exception", "example", "code",
    "c", "para", "list", "listheader", "item", "term", "description", "permission", "b", "i", "u"]

/-- The tags that stand for a text named by an attribute. -/
def inlineReferenceTags : List String :=
  ["see", "seealso", "paramref", "typeparamref", "inheritdoc"]

/-- The attributes by which an inline reference names its target. -/
def referenceAttributes : List String :=
  ["cref", "name", "langword", "href"]

/-- The tags allowed at the top level of any comment. -/
def universalTags : List String :=
  ["summary", "remarks", "example", "see", "seealso", "para", "list", "code", "inheritdoc", "include"]

/-- The further tags allowed at the top level of the comment of one kind of member. A type takes
parameters for the sake of its primary constructor. -/
def specificTags : MemberKind → List String
  | .namespaceScope => []
  | .type => ["typeparam", "param"]
  | .method => ["param", "typeparam", "returns", "exception"]
  | .constructor => ["param", "exception"]
  | .property => ["value", "exception"]
  | .field => ["value"]
  | .event => ["exception"]
  | .eventField => []
  | .enumMember => []
  | .delegate => ["param", "typeparam", "returns"]
  | .operator => ["param", "returns", "exception"]
  | .conversionOperator => ["param", "returns", "exception"]
  | .indexer => ["param", "value", "returns", "exception"]

/-- The tag name is known. -/
def isKnown (name : String) : Bool :=
  knownTags.contains name

/-- The tag needs an end tag unless it closes itself. -/
def isContainer (name : String) : Bool :=
  containerTags.contains name

/-- The tag stands for a text named by an attribute. -/
def isInlineReference (name : String) : Bool :=
  inlineReferenceTags.contains name

/-- The tag may stand at the top level of the comment of a member of this kind. -/
def isAllowedOn (kind : MemberKind) (name : String) : Bool :=
  universalTags.contains name || (specificTags kind).contains name

end DocAudit.Vocabulary

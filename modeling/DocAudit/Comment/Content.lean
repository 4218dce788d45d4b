import DocAudit.Comment.Basic
import DocAudit.Vocabulary

/-!
# What elements say

When an element has content, and what it names. Text counts as content when it is not blank; an
element inside counts when it has content itself or renders a text of its own, as an inherited comment
and a reference with a target do.
-/

namespace DocAudit

open Text

namespace Markup

/-- The element renders the text of an attribute: an inline reference that names its target. -/
def Tag.namesTarget (tag : Tag) : Bool :=
  Vocabulary.isInlineReference tag.name &&
    Vocabulary.referenceAttributes.any fun name =>
      (tag.attribute? name).any fun value => !isBlank value.toList

mutual

/-- The node is content that a reader sees. -/
def Node.isMeaningful : Node → Bool
  | .text _ content => !isBlank content.toList
  | .element tag children =>
    tag.name == "inheritdoc" || tag.namesTarget || Node.anyMeaningful children

/-- One of the nodes is content that a reader sees. -/
def Node.anyMeaningful : List Node → Bool
  | [] => false
  | node :: nodes => node.isMeaningful || Node.anyMeaningful nodes

end

/-- The element holds content that a reader sees. -/
def Element.isMeaningful (element : Element) : Bool :=
  Node.anyMeaningful element.children

/-- The name an element gives, without blanks around it, unless nothing is left. -/
def Tag.givenName? (tag : Tag) : Option String :=
  ((tag.attribute? "name").map fun name => String.ofList (trim name.toList)).filter (· != "")

/-- The target an element refers to, as written, unless it is blank. -/
def Tag.target? (tag : Tag) : Option String :=
  (tag.attribute? "cref").filter fun cref => !isBlank cref.toList

end Markup

/-- An element with the word that identifies it among its like. -/
structure KeyedElement where
  /-- The word. -/
  key : String
  /-- The element. -/
  element : Markup.Element

namespace DocComment

/-- The elements of a tag name that satisfy a reading of their key, in document order. -/
def keyedBy (key? : Markup.Tag → Option String) (doc : DocComment) (tagName : String) :
    List KeyedElement :=
  (doc.elementsNamed tagName).filterMap fun element =>
    (key? element.tag).map fun key => ⟨key, element⟩

/-- The elements of a tag name that give a name, in document order. -/
def namedElements (doc : DocComment) (tagName : String) : List KeyedElement :=
  doc.keyedBy Markup.Tag.givenName? tagName

/-- The elements of a tag name that refer to a target, in document order. -/
def targetedElements (doc : DocComment) (tagName : String) : List KeyedElement :=
  doc.keyedBy Markup.Tag.target? tagName

end DocComment
end DocAudit

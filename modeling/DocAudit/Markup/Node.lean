import DocAudit.Markup.Attribute

/-!
# Content nodes

The content of a piece of markup is a forest: runs of text and elements, each with the span of the
text it was read from. An element keeps how it was terminated, so that markup that does not match is
still a forest.
-/

namespace DocAudit.Markup

/-- A stretch of a text, by its byte offsets. -/
structure Span where
  /-- Where the stretch starts. -/
  start : Nat
  /-- Where the stretch stops. -/
  stop : Nat
deriving DecidableEq, Repr

/-- How an element was terminated. -/
inductive Closing
  /-- By its end tag. -/
  | endTag
  /-- By the slash of its own tag. -/
  | selfClosing
  /-- Not at all: its end tag never came. -/
  | missing
  /-- It was still open when reading broke off. -/
  | unknown
deriving DecidableEq, Repr

/-- The element was terminated in the text. -/
def Closing.isComplete : Closing → Bool
  | endTag | selfClosing => true
  | missing | unknown => false

/-- What the tags of an element say about it. -/
structure Tag where
  /-- The name after the first colon. -/
  name : String
  /-- The attributes in the order they are written. -/
  attributes : List Attribute
  /-- From the start tag through the end tag. -/
  span : Span
  /-- How the element was terminated. -/
  closing : Closing
deriving DecidableEq, Repr

/-- The value of the first attribute of a name. -/
def Tag.attribute? (tag : Tag) (name : String) : Option String :=
  (tag.attributes.find? (·.name == name)).map (·.value)

/-- A piece of content. -/
inductive Node
  /-- A run of text. -/
  | text (span : Span) (content : String)
  /-- An element with what stands between its tags. -/
  | element (tag : Tag) (children : List Node)
deriving Repr

/-- An element taken out of its place. -/
structure Element where
  /-- What its tags say. -/
  tag : Tag
  /-- What stands between its tags. -/
  children : List Node
deriving Repr

namespace Node

/-- The node itself, when it is an element. -/
def element? : Node → Option Element
  | text _ _ => none
  | element tag children => some ⟨tag, children⟩

/-- The stretch of text the node was read from. -/
def span : Node → Span
  | text span _ => span
  | element tag _ => tag.span

mutual

/-- The element, if the node is one, followed by all elements inside it, in document order. -/
def elements : Node → List Element
  | text _ _ => []
  | element tag children => ⟨tag, children⟩ :: elementsOfAll children

/-- All elements of a forest, in document order. -/
def elementsOfAll : List Node → List Element
  | [] => []
  | node :: nodes => node.elements ++ elementsOfAll nodes

end

end Node

/-- The elements directly inside an element. -/
def Element.childElements (element : Element) : List Element :=
  element.children.filterMap Node.element?

end DocAudit.Markup

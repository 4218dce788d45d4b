import DocAudit.Comment.Body
import DocAudit.Markup.Forest

/-!
# Doc comments

A doc comment is a run of comment nodes read as one piece of markup. The forest of that markup goes
with the comment, and every offset of the markup has a place in the source.
-/

namespace DocAudit

open Markup Text

/-- A doc comment and the forest of its markup. -/
structure DocComment where
  /-- The byte offset where the first comment starts. -/
  start : Nat
  /-- The byte offset just past the last comment. -/
  stop : Nat
  /-- The lines of all comments without the signs of the comments. -/
  lines : List Comment.Line
  /-- The content of the markup. -/
  forest : Forest
  /-- The content is that of the lines. -/
  forest_eq : forest = Forest.read (Comment.markupOf lines)

namespace DocComment

/-- The doc comment of the given lines. -/
def ofLines (start stop : Nat) (lines : List Comment.Line) : DocComment :=
  ⟨start, stop, lines, Forest.read (Comment.markupOf lines), rfl⟩

/-- The doc comment of consecutive comment nodes, if there are any. -/
def ofNodes? (source : List Char) (comments : List Code.Node) : Option DocComment := do
  let first ← comments.head?
  let last ← comments.getLast?
  return ofLines first.start last.stop
    (comments.flatMap fun comment => Comment.bodyLines comment.start (comment.text source))

/-- The markup of the comment. -/
def markup (doc : DocComment) : List Char :=
  Comment.markupOf doc.lines

/-- The place in the source of an offset in the markup. -/
def sourceOffset (doc : DocComment) (offset : Nat) : Nat :=
  Comment.sourceOffset doc.start doc.lines offset

/-- All elements at any depth, in document order. -/
def elements (doc : DocComment) : List Element :=
  doc.forest.elements

/-- The elements outside of all others, in document order. -/
def topLevel (doc : DocComment) : List Element :=
  doc.forest.topLevel

/-- The elements of a name at any depth, in document order. -/
def elementsNamed (doc : DocComment) (name : String) : List Element :=
  doc.elements.filter (·.tag.name == name)

/-- The place in the source where an element starts. -/
def positionOf (doc : DocComment) (element : Element) : Nat :=
  doc.sourceOffset element.tag.span.start

/-- The text of an element, from its start tag through its end tag. -/
def textOf (doc : DocComment) (element : Element) : List Char :=
  slice element.tag.span.start element.tag.span.stop doc.markup

/-- The markup can be read with every event starting between two characters. -/
def isReadable (doc : DocComment) : Bool :=
  doc.forest.isAligned

end DocComment
end DocAudit

import DocAudit.Comment.Basic
import DocAudit.Smell

/-!
# Verdicts

A verdict is what a check says about a source: a smell at a byte offset, with the tag it is about, the
piece of text that shows it, and the details of its message.
-/

namespace DocAudit

/-- A smell at a place. -/
structure Verdict where
  /-- The smell. -/
  smell : Smell
  /-- The name of the tag it is about, empty when it is about a whole declaration. -/
  tagName : String
  /-- The byte offset in the source. -/
  position : Nat
  /-- The text that shows the smell. -/
  excerpt : List Char
  /-- The details of the message. -/
  details : List String
deriving DecidableEq, Repr

namespace Verdict

/-- A smell of an element of a doc comment. -/
def ofElement (doc : DocComment) (element : Markup.Element) (smell : Smell)
    (details : List String) : Verdict :=
  { smell
    tagName := element.tag.name
    position := doc.positionOf element
    excerpt := doc.textOf element
    details }

end Verdict
end DocAudit

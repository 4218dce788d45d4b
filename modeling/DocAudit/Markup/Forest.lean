import DocAudit.Markup.Node

/-!
# Reading a forest

Events become a forest with the help of the elements still open, innermost first. An end tag closes
the innermost open element of its name, and the elements inside that one are left unclosed; an end
tag without such an element changes nothing. A tag without a name is no tag but text: that is how a
bare `<` in prose reads. What is still open at the end stays unclosed.

A byte order mark at the very beginning is passed over without being counted, so that all later
offsets are three bytes short. They may then fall inside a character; `Forest.isAligned` says that
none does.
-/

namespace DocAudit.Markup

open DocAudit.Text

/-- An element whose end tag has not come yet. -/
structure OpenElement where
  /-- The name after the first colon. -/
  name : String
  /-- The attributes of the start tag. -/
  attributes : List Attribute
  /-- Where the start tag starts. -/
  start : Nat
  /-- The content read so far. -/
  children : List Node
deriving Repr

namespace OpenElement

/-- The element with a further node in it. -/
def add (element : OpenElement) (node : Node) : OpenElement :=
  { element with children := element.children ++ [node] }

/-- The finished element. -/
def toNode (element : OpenElement) (closing : Closing) (stop : Nat) : Node :=
  .element ⟨element.name, element.attributes, ⟨element.start, stop⟩, closing⟩ element.children

end OpenElement

/-- A forest under construction. -/
structure Builder where
  /-- The finished nodes outside of all open elements. -/
  roots : List Node
  /-- The elements still open, innermost first. -/
  pending : List OpenElement
deriving Repr

namespace Builder

/-- Nothing read yet. -/
def empty : Builder := ⟨[], []⟩

/-- A finished node goes into the innermost open element. -/
def attach (node : Node) : Builder → Builder
  | ⟨roots, []⟩ => ⟨roots ++ [node], []⟩
  | ⟨roots, element :: outer⟩ => ⟨roots, element.add node :: outer⟩

/-- A text goes into the innermost open element, unless it is empty. -/
def attachText (start : Nat) (content : List Char) (builder : Builder) : Builder :=
  if content.isEmpty then builder
  else
    builder.attach (.text ⟨start, start + byteLength content⟩ (String.ofList content))

/-- A start tag opens an element. -/
def openElement (name attributes : List Char) (start : Nat) (builder : Builder) : Builder :=
  { builder with
    pending :=
      ⟨String.ofList (localName name), Attribute.parseAll attributes, start, []⟩ :: builder.pending }

/-- An element that closes itself. -/
def selfClosed (name attributes : List Char) (start stop : Nat) : Node :=
  .element
    ⟨String.ofList (localName name), Attribute.parseAll attributes, ⟨start, stop⟩, .selfClosing⟩ []

/-- The innermost open element is finished. -/
def finish (closing : Closing) (stop : Nat) : Builder → Builder
  | ⟨roots, []⟩ => ⟨roots, []⟩
  | ⟨roots, element :: outer⟩ => attach (element.toNode closing stop) ⟨roots, outer⟩

/-- The innermost open elements are finished, `count` of them. -/
def finishMany (closing : Closing) (stop : Nat) : (count : Nat) → Builder → Builder
  | 0, builder => builder
  | count + 1, builder => finishMany closing stop count (builder.finish closing stop)

/-- An end tag from `start` to `stop` closes the innermost open element of its name, and leaves
those inside it unclosed. -/
def closeElement (name : String) (start stop : Nat) (builder : Builder) : Builder :=
  match builder.pending.findIdx? (·.name == name) with
  | none => builder
  -- The elements inside the one that is closed end where the end tag starts.
  | some depth => (builder.finishMany .missing start depth).finish .endTag stop

end Builder

/-- The offset of the `<` of the markup read at `position`: that very place, or the place of a `<`
with nothing but blanks between the two. -/
def markupStart (cs : List Char) (position : Nat) : Nat :=
  if (dropBytes position cs).head? = some '<' then position
  else
    match (takeBytes position cs).reverse.dropWhile isBlankChar with
    | '<' :: front => byteLength front
    | _ => position

/-- One event of a text goes into the forest. -/
def Builder.read (cs : List Char) (builder : Builder) (reading : Reading) : Builder :=
  let start := markupStart cs reading.start
  match reading.event with
  | .text content => builder.attachText reading.start content
  | .characterData content => builder.attachText reading.start content
  | .reference =>
    -- A reference stays as it is written.
    builder.attachText reading.start
      ((slice reading.start reading.stop cs).takeWhile (· != '<'))
  | .startTag name attributes =>
    -- A tag without a name is prose.
    if (localName name).isEmpty then builder.attachText start (slice start reading.stop cs)
    else builder.openElement name attributes start
  | .emptyTag name attributes =>
    if (localName name).isEmpty then builder.attachText start (slice start reading.stop cs)
    else builder.attach (selfClosed name attributes start reading.stop)
  | .endTag name => builder.closeElement (String.ofList (localName name)) start reading.stop
  | .aside | .complaint => builder

/-- The content of a text. -/
structure Forest where
  /-- The nodes outside of all elements. -/
  nodes : List Node
  /-- Where the markup starts that has no end, if there is such. -/
  errorPosition : Option Nat
  /-- Every event starts between two characters of the text. -/
  isAligned : Bool
deriving Repr

namespace Forest

/-- The text after a byte order mark at its beginning. -/
def withoutMark : List Char → List Char
  | '\uFEFF' :: cs => cs
  | cs => cs

/-- The events of a text, and how reading it ended. -/
def readings (cs : List Char) : List Reading × Ending :=
  readAll 0 (withoutMark cs)

/-- What is still open when reading comes to its end stays unclosed there. -/
def ofBuilder (cs : List Char) (builder : Builder) : Ending → List Node
  | .finished _ => (builder.finishMany .missing (byteLength cs) builder.pending.length).roots
  | .broken position => (builder.finishMany .unknown position builder.pending.length).roots

/-- The content of a text. -/
def read (cs : List Char) : Forest :=
  let (events, ending) := readings cs
  { nodes := ofBuilder cs (events.foldl (Builder.read cs) .empty) ending
    errorPosition :=
      match ending with
      | .finished _ => none
      | .broken position => some position
    isAligned :=
      events.all (isBoundary ·.start cs) && isBoundary ending.position cs }

/-- All elements at any depth, in document order. -/
def elements (forest : Forest) : List Element :=
  Node.elementsOfAll forest.nodes

/-- The elements outside of all others. -/
def topLevel (forest : Forest) : List Element :=
  forest.nodes.filterMap Node.element?

end Forest
end DocAudit.Markup

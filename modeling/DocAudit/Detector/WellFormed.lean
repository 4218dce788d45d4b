import DocAudit.Comment.Content
import DocAudit.Finding.Verdict
import DocAudit.Text.WordChar

/-!
# Well-formed markup

Every doc comment is checked, whether or not it documents a declaration. The elements of the forest
are checked for unknown names, missing end tags and missing attributes. Where reading broke off the
forest says nothing about end tags, so the text of every comment is also looked through for start
tags of containers that no end tag of their name follows; a place reported from the forest is not
reported again.
-/

namespace DocAudit

open Text

namespace RawTag

/-- The character begins a tag name in running text. -/
def startsName (c : Char) : Bool :=
  c.isAlpha || c == '_'

/-- The character continues a tag name in running text. -/
def continuesName (c : Char) : Bool :=
  isWordChar c || c == '.' || c == ':' || c == '-'

/-- The character is no angle bracket. -/
def isInside (c : Char) : Bool :=
  c != '<' && c != '>'

end RawTag

/-- A start tag as it looks in running text: `<`, a name, and whatever comes up to the next angle
bracket, with that bracket if it closes. -/
structure RawTag where
  /-- The offset of the `<` in the text. -/
  start : Nat
  /-- The name. -/
  name : List Char
  /-- The text between the name and the next angle bracket. -/
  inside : List Char
  /-- The whole tag. -/
  text : List Char
  /-- The text after the tag. -/
  after : List Char
deriving DecidableEq, Repr

namespace RawTag

/-- The start tag at a `<`, given its offset and what follows it. -/
def ofText (start : Nat) (cs : List Char) : RawTag :=
  let name := cs.takeWhile continuesName
  let beyond := cs.dropWhile continuesName
  let inside := beyond.takeWhile isInside
  match beyond.dropWhile isInside with
  | '>' :: after => ⟨start, name, inside, '<' :: name ++ inside ++ ['>'], after⟩
  -- A tag cut off by another one still counts as a tag.
  | after => ⟨start, name, inside, '<' :: name ++ inside, after⟩

/-- Every start tag of a text that begins at the given offset. -/
def all (offset : Nat) : List Char → List RawTag
  | [] => []
  | c :: cs =>
    -- The search goes on right behind the `<`, also inside of the tag that was found.
    (if c = '<' ∧ cs.head?.any startsName = true then [ofText offset cs] else []) ++
      all (offset + c.utf8Size) cs

/-- An end tag of the name begins the text, perhaps with blanks before its `>`. -/
def endsAt (name cs : List Char) : Bool :=
  (dropHead? ('<' :: '/' :: name) cs).any fun rest => (trimStart rest).head? == some '>'

/-- An end tag of the name stands in the text. -/
def hasEndTag (name : List Char) : List Char → Bool
  | [] => false
  | c :: cs => endsAt name (c :: cs) || hasEndTag name cs

/-- The tag wants an end tag and no end tag of its name follows. -/
def isUnclosed (tag : RawTag) : Bool :=
  Vocabulary.isContainer (String.ofList tag.name) &&
    (trimEnd tag.inside).getLast? != some '/' &&
    !hasEndTag tag.name tag.after

end RawTag

namespace DocComment

/-- What is wrong with the end, the content or the attributes of an element of this name, apart from
its end tag. -/
def formFault? (element : Markup.Element) : Option Smell :=
  match element.tag.name with
  | "paramref" => if element.children.isEmpty then none else some .paramRefNotEmpty
  | "typeparamref" => if element.children.isEmpty then none else some .typeParamRefNotEmpty
  | "param" => if element.tag.givenName?.isNone then some .paramMissingName else none
  | "typeparam" => if element.tag.givenName?.isNone then some .typeParamMissingName else none
  | "exception" => if element.tag.target?.isNone then some .exceptionMissingCref else none
  | _ => none

/-- The element is a container whose end tag never came. -/
def isUnclosed (element : Markup.Element) : Bool :=
  -- Where reading broke off, nothing is known of the end tag.
  Vocabulary.isContainer element.tag.name && element.tag.closing == .missing

/-- The verdicts on one element. -/
def elementVerdicts (doc : DocComment) (element : Markup.Element) : List Verdict :=
  let name := element.tag.name
  (if Vocabulary.isKnown name then [] else [.ofElement doc element .unknownTag [name]]) ++
    (if isUnclosed element then [.ofElement doc element .missingEndTag [name]] else []) ++
    ((formFault? element).map fun smell => .ofElement doc element smell []).toList

/-- The places of the containers whose end tags never came. -/
def unclosedPositions (doc : DocComment) : List Nat :=
  (doc.elements.filter isUnclosed).map doc.positionOf

/-- The verdict on a start tag without an end tag. -/
def rawVerdict (doc : DocComment) (tag : RawTag) : Verdict :=
  let name := String.ofList tag.name
  { smell := .missingEndTag, tagName := name, position := doc.sourceOffset tag.start,
    excerpt := tag.text, details := [name] }

/-- The verdicts of a list whose places are not among those given and not repeated. -/
def atNewPlaces : (places : List Nat) → List Verdict → List Verdict
  | _, [] => []
  | places, verdict :: verdicts =>
    if places.contains verdict.position then atNewPlaces places verdicts
    -- A place that is reported now is not reported again either.
    else verdict :: atNewPlaces (verdict.position :: places) verdicts

/-- The verdicts on start tags in the text of the markup. -/
def rawVerdicts (doc : DocComment) : List Verdict :=
  atNewPlaces doc.unclosedPositions
    (((RawTag.all 0 doc.markup).filter RawTag.isUnclosed).map doc.rawVerdict)

/-- The verdicts on the markup of a doc comment. -/
def markupVerdicts (doc : DocComment) : List Verdict :=
  doc.elements.flatMap doc.elementVerdicts ++ doc.rawVerdicts

end DocComment
end DocAudit

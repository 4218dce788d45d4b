import DocAudit.Code.Node
import DocAudit.Text.Blank

/-!
# Bodies of doc comments

A doc comment is written as line comments `///` or as a block `/** ... */`. Its body is what remains
without the signs of the comment: a list of lines, each with its place in the source. The lines joined
by line feeds are the markup of the comment, and every offset in that markup has a place in the
source.
-/

namespace DocAudit.Comment

open DocAudit.Text

/-- The sign of a doc comment that runs to the end of its line. -/
def lineSign : List Char := "///".toList

/-- The sign that opens a doc comment written as a block. -/
def blockOpening : List Char := "/**".toList

/-- The sign that closes a block. -/
def blockClosing : List Char := "*/".toList

/-- A comment of this text is a doc comment. Four slashes, or a block that closes at once, are none. -/
def isDocText (cs : List Char) : Bool :=
  let text := trimStart cs
  ((dropHead? lineSign text).isSome && !(dropHead? "////".toList text).isSome) ||
    ((dropHead? blockOpening text).isSome && !(dropHead? "/**/".toList text).isSome)

/-- A line of a body. -/
structure Line where
  /-- The byte offset in the source where the line starts. -/
  source : Nat
  /-- The text of the line. -/
  text : List Char
deriving DecidableEq, Repr

/-- A line of a block after its first: leading blanks go, and one star after them. -/
def stripDecoration (start : Nat) (line : List Char) : Line :=
  let blanks := line.takeWhile isBlankChar
  match trimStart line with
  -- A second star belongs to the content.
  | '*' :: content => ⟨start + byteLength blanks + 1, content⟩
  | content => ⟨start + byteLength blanks, content⟩

/-- The lines of a block after its first, from where the first of them starts. -/
def laterLines (start : Nat) : List (List Char) → List Line
  | [] => []
  | line :: lines =>
    stripDecoration start (dropEndWhile (· == '\r') line) ::
      laterLines (start + byteLength line + 1) lines

/-- The lines of the inside of a block that starts at `start`. -/
def blockLines (start : Nat) (inside : List Char) : List Line :=
  match splitAt '\n' inside with
  | [] => []
  | first :: later =>
    -- The first line follows the opening sign and has no decoration.
    ⟨start, dropEndWhile (· == '\r') first⟩ :: laterLines (start + byteLength first + 1) later

/-- The lines of the comment of the given text that starts at `start`. -/
def bodyLines (start : Nat) (comment : List Char) : List Line :=
  match dropHead? lineSign comment with
  | some body =>
    [⟨start + byteLength lineSign, dropEndWhile (fun c => c == '\r' || c == '\n') body⟩]
  | none =>
    match dropHead? blockOpening comment with
    | some body =>
      blockLines (start + byteLength blockOpening) ((dropTail? blockClosing body).getD body)
    | none => []

/-- The markup of a body. -/
def markupOf (lines : List Line) : List Char :=
  joinWith '\n' (lines.map Line.text)

/-- The place in the source of an offset in the markup of a body. The line feed between two lines
stands at the end of the first, and an offset past the end at the end of the last. Without lines the
place is `start`. -/
def sourceOffset (start : Nat) : List Line → (offset : Nat) → Nat
  | [], _ => start
  | [line], offset => line.source + min offset (byteLength line.text)
  | line :: next :: lines, offset =>
    if offset ≤ byteLength line.text then line.source + offset
    else sourceOffset start (next :: lines) (offset - (byteLength line.text + 1))

end DocAudit.Comment

import DocAudit.Text.Blank

/-!
# Snippets

A snippet shows a piece of a source on one line: each line break becomes a space, blanks around the
text are dropped, and a long text is cut after a fixed number of characters and marked with dots.
-/

namespace DocAudit.Text

/-- The number of characters after which a snippet is cut. -/
def snippetLimit : Nat := 160

/-- The mark of a snippet that was cut. -/
def ellipsis : List Char := "...".toList

/-- Every line break, written with one or two characters, becomes one space. -/
def joinLines : List Char → List Char
  | [] => []
  | '\r' :: '\n' :: cs => ' ' :: joinLines cs
  | c :: cs => (if c = '\n' ∨ c = '\r' then ' ' else c) :: joinLines cs

/-- The first `limit` characters followed by dots, or the whole text when it is not longer. -/
def shorten (limit : Nat) (cs : List Char) : List Char :=
  if cs.length > limit then cs.take limit ++ ellipsis else cs

/-- The text on one line, without surrounding blanks, and of bounded length. -/
def snippet (cs : List Char) : List Char :=
  shorten snippetLimit (trim (joinLines cs))

end DocAudit.Text

import DocAudit.Text.Basic

/-!
# Lines and columns

The place of a byte offset as people read it: lines and columns count from one, and a column counts
characters, not bytes.
-/

namespace DocAudit.Text

/-- A place in a text, both numbers counted from one. -/
structure Location where
  /-- The number of the line. -/
  line : Nat
  /-- The number of the character in its line. -/
  column : Nat
deriving DecidableEq, Repr

namespace Location

/-- The place where a text starts. -/
def first : Location := ⟨1, 1⟩

/-- The place just after a character: a line feed starts a line. -/
def next (place : Location) (c : Char) : Location :=
  if c = '\n' then ⟨place.line + 1, 1⟩ else ⟨place.line, place.column + 1⟩

/-- The place `offset` bytes into a text that starts at `place`. An offset past the end stands at the
end, one inside a character at the start of that character. -/
def walk (place : Location) : (offset : Nat) → List Char → Location
  | _, [] => place
  | offset, c :: cs =>
    if offset < c.utf8Size then place else walk (place.next c) (offset - c.utf8Size) cs

end Location

/-- The place of a byte offset of a text. -/
def locate (cs : List Char) (offset : Nat) : Location :=
  Location.first.walk offset cs

end DocAudit.Text

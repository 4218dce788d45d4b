/-!
# Tokens of YAML

The signs and words a YAML text is made of. The extent of a block collection is given by indentation,
and tokens mark where it starts and where it ends.
-/

namespace DocAudit.Yaml

/-- How a scalar is written. -/
inductive ScalarStyle
  /-- Without any sign. -/
  | plain
  /-- Between single or double quotes. -/
  | quoted
  /-- As a block whose line breaks are kept. -/
  | literal
  /-- As a block whose lines are joined. -/
  | folded
deriving DecidableEq, Repr

/-- A sign or word of YAML. -/
inductive Token
  /-- A directive that gives the version. -/
  | version (major minor : Nat)
  /-- A directive that gives a handle of tags the text it stands for. -/
  | tagHandle (handle meaning : List Char)
  | documentStart
  | documentEnd
  | blockSequenceStart
  | blockMappingStart
  | blockEnd
  | flowSequenceStart
  | flowSequenceEnd
  | flowMappingStart
  | flowMappingEnd
  /-- The dash in front of an item. -/
  | blockEntry
  /-- The comma between items. -/
  | flowEntry
  /-- A key follows. -/
  | key
  /-- A value follows. -/
  | value
  | alias (name : List Char)
  | anchor (name : List Char)
  /-- A tag as a handle, empty when the tag is written in full, and the rest. -/
  | tag (handle suffix : List Char)
  | scalar (style : ScalarStyle) (text : List Char)
deriving DecidableEq, Repr

end DocAudit.Yaml

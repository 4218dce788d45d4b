import DocAudit.Json.Value

/-!
# Writing JSON

A value on several lines: each item and each member on a line of its own, two blanks deeper than what
holds it. Only quotes, backslashes and controls are escaped.
-/

namespace DocAudit.Json

/-- Hexadecimal digits, at least four. -/
def fourDigits (code : Nat) : List Char :=
  let digits := Nat.toDigits 16 code
  List.replicate (4 - digits.length) '0' ++ digits

/-- The spelling of a piece of a string. -/
def Piece.write : Piece → List Char
  | .unit code => ['\\', 'u'] ++ fourDigits code
  | .char c =>
    if c = '"' then ['\\', '"']
    else if c = '\\' then ['\\', '\\']
    else if c = '\x08' then ['\\', 'b']
    else if c = '\x0c' then ['\\', 'f']
    else if c = '\n' then ['\\', 'n']
    else if c = '\r' then ['\\', 'r']
    else if c = '\t' then ['\\', 't']
    else if c.toNat < 0x20 then ['\\', 'u'] ++ fourDigits c.toNat
    else [c]

/-- The spelling of a string. -/
def writeString (pieces : List Piece) : List Char :=
  '"' :: pieces.flatMap Piece.write ++ ['"']

/-- A line break and the blanks in front of the next line. -/
def newLine (depth : Nat) : List Char :=
  '\n' :: List.replicate (2 * depth) ' '

mutual

/-- The spelling of a value inside so many others. -/
def Value.write (depth : Nat) : Value → List Char
  | .null => "null".toList
  | .bool true => "true".toList
  | .bool false => "false".toList
  | .number literal => literal
  | .string pieces => writeString pieces
  | .array [] => ['[', ']']
  | .array (item :: items) =>
    ['['] ++ newLine (depth + 1) ++ item.write (depth + 1) ++ writeItems (depth + 1) items ++
      newLine depth ++ [']']
  | .object [] => ['\x7b', '\x7d']
  | .object ((key, value) :: members) =>
    ['\x7b'] ++ newLine (depth + 1) ++ writeString key ++ [':', ' '] ++ value.write (depth + 1) ++
      writeMembers (depth + 1) members ++ newLine depth ++ ['\x7d']

/-- The spelling of the items after the first. -/
def writeItems (depth : Nat) : List Value → List Char
  | [] => []
  | item :: items => [','] ++ newLine depth ++ item.write depth ++ writeItems depth items

/-- The spelling of the members after the first. -/
def writeMembers (depth : Nat) : List (List Piece × Value) → List Char
  | [] => []
  | (key, value) :: members =>
    [','] ++ newLine depth ++ writeString key ++ [':', ' '] ++ value.write depth ++
      writeMembers depth members

end

/-- The text of a value. -/
def Value.text (value : Value) : String :=
  String.ofList (value.write 0)

end DocAudit.Json

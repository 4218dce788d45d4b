import DocAudit.Json.Value
import DocAudit.Text.Basic

/-!
# Reading JSON

The strict grammar: no comments, no trailing commas, no leading zeros, no control characters in
strings, and nothing but blanks around the value.
-/

namespace DocAudit.Json

/-- A blank of JSON. -/
def isSpace (c : Char) : Bool :=
  c == ' ' || c == '\t' || c == '\n' || c == '\r'

/-- The text without its leading blanks. -/
def skipSpace (cs : List Char) : List Char :=
  cs.dropWhile isSpace

/-- The value of a hexadecimal digit. -/
def hexDigit? (c : Char) : Option Nat :=
  if c.isDigit then some (c.toNat - 48)
  else if 'a' ≤ c ∧ c ≤ 'f' then some (c.toNat - 87)
  else if 'A' ≤ c ∧ c ≤ 'F' then some (c.toNat - 55)
  else none

/-- The unit of four hexadecimal digits. -/
def hexUnit? (a b c d : Char) : Option Nat := do
  let a ← hexDigit? a
  let b ← hexDigit? b
  let c ← hexDigit? c
  let d ← hexDigit? d
  return ((a * 16 + b) * 16 + c) * 16 + d

/-- The character of an escape of one letter. -/
def escapeChar? : Char → Option Char
  | '"' => some '"'
  | '\\' => some '\\'
  | '/' => some '/'
  | 'b' => some '\x08'
  | 'f' => some '\x0c'
  | 'n' => some '\n'
  | 'r' => some '\r'
  | 't' => some '\t'
  | _ => none

/-- The pieces of a string up to its closing quote, and the text after it. -/
def readString? : List Char → Option (List Piece × List Char)
  | [] => none
  | '"' :: cs => some ([], cs)
  | '\\' :: 'u' :: a :: b :: c :: d :: cs => do
    let unit ← hexUnit? a b c d
    let (pieces, rest) ← readString? cs
    return (.unit unit :: pieces, rest)
  | '\\' :: e :: cs => do
    let c ← escapeChar? e
    let (pieces, rest) ← readString? cs
    return (.char c :: pieces, rest)
  | c :: cs =>
    if c.toNat < 0x20 ∨ c = '\\' then none
    else (readString? cs).map fun (pieces, rest) => (.char c :: pieces, rest)

/-- The digits at the beginning of a text, at least one, and the text after them. -/
def readDigits? (cs : List Char) : Option (List Char × List Char) :=
  match cs.takeWhile Char.isDigit with
  | [] => none
  | digits => some (digits, cs.dropWhile Char.isDigit)

/-- The digits in front of the decimal point: no zero in front of others. -/
def readInteger? : List Char → Option (List Char × List Char)
  | '0' :: cs => if (cs.head?.any Char.isDigit) = true then none else some (['0'], cs)
  | cs => readDigits? cs

/-- The decimal point with the digits after it, if there is one. -/
def readFraction? : List Char → Option (List Char × List Char)
  | '.' :: cs => (readDigits? cs).map fun (digits, rest) => ('.' :: digits, rest)
  | cs => some ([], cs)

/-- The sign of an exponent, if there is one. -/
def readSign : List Char → List Char × List Char
  | '+' :: cs => (['+'], cs)
  | '-' :: cs => (['-'], cs)
  | cs => ([], cs)

/-- The exponent, if there is one. -/
def readExponent? : List Char → Option (List Char × List Char)
  | [] => some ([], [])
  | e :: cs =>
    if e = 'e' ∨ e = 'E' then do
      let (sign, afterSign) := readSign cs
      let (digits, rest) ← readDigits? afterSign
      return (e :: sign ++ digits, rest)
    else some ([], e :: cs)

/-- A number without its minus sign. -/
def readUnsigned? (cs : List Char) : Option (List Char × List Char) := do
  let (integer, afterInteger) ← readInteger? cs
  let (fraction, afterFraction) ← readFraction? afterInteger
  let (exponent, rest) ← readExponent? afterFraction
  return (integer ++ fraction ++ exponent, rest)

/-- A value that is neither an array nor an object. -/
def readScalar? : List Char → Option (Value × List Char)
  | 'n' :: 'u' :: 'l' :: 'l' :: cs => some (.null, cs)
  | 't' :: 'r' :: 'u' :: 'e' :: cs => some (.bool true, cs)
  | 'f' :: 'a' :: 'l' :: 's' :: 'e' :: cs => some (.bool false, cs)
  | '"' :: cs => (readString? cs).map fun (pieces, rest) => (.string pieces, rest)
  | '-' :: cs => (readUnsigned? cs).map fun (literal, rest) => (.number ('-' :: literal), rest)
  | cs => (readUnsigned? cs).map fun (literal, rest) => (.number literal, rest)

/-- A key with its colon, and the text after it. -/
def readKey? (cs : List Char) : Option (List Piece × List Char) :=
  match skipSpace cs with
  | '"' :: inside => do
    let (key, afterKey) ← readString? inside
    match skipSpace afterKey with
    | ':' :: rest => some (key, rest)
    | _ => none
  | _ => none

mutual

/-- A value and the text after it. The fuel bounds the depth of the recursion; one unit for each
character of the text is enough. -/
def readValue? : (fuel : Nat) → List Char → Option (Value × List Char)
  | 0, _ => none
  | fuel + 1, cs =>
    match skipSpace cs with
    | '[' :: inside =>
      match skipSpace inside with
      | ']' :: rest => some (.array [], rest)
      | items => (readItems? fuel items).map fun (items, rest) => (.array items, rest)
    | '\x7b' :: inside =>
      match skipSpace inside with
      | '\x7d' :: rest => some (.object [], rest)
      | members => (readMembers? fuel members).map fun (members, rest) => (.object members, rest)
    | scalar => readScalar? scalar

/-- The items of an array, at least one, up to its closing bracket. -/
def readItems? : (fuel : Nat) → List Char → Option (List Value × List Char)
  | 0, _ => none
  | fuel + 1, cs => do
    let (item, afterItem) ← readValue? fuel cs
    match skipSpace afterItem with
    | ',' :: more =>
      let (items, rest) ← readItems? fuel more
      return (item :: items, rest)
    | ']' :: rest => some ([item], rest)
    | _ => none

/-- The members of an object, at least one, up to its closing brace. -/
def readMembers? : (fuel : Nat) → List Char → Option (List (List Piece × Value) × List Char)
  | 0, _ => none
  | fuel + 1, cs => do
    let (key, afterKey) ← readKey? cs
    let (value, afterValue) ← readValue? fuel afterKey
    match skipSpace afterValue with
    | ',' :: more =>
      let (members, rest) ← readMembers? fuel more
      return ((key, value) :: members, rest)
    | '\x7d' :: rest => some ([(key, value)], rest)
    | _ => none

end

/-- The value of a JSON text. -/
def parse? (text : List Char) : Option Value := do
  let (value, rest) ← readValue? (text.length + 1) text
  if (skipSpace rest).isEmpty then some value else none

end DocAudit.Json

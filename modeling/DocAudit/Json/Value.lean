/-!
# JSON values

A JSON text as data. Numbers keep their spelling. A string is kept as the pieces it is written with,
since an escape may name half of a surrogate pair, which is no character; members keep their order
and may repeat a key.
-/

namespace DocAudit.Json

/-- A piece of a string: a character, or a 16-bit unit given by an escape. -/
inductive Piece
  | char (c : Char)
  | unit (code : Nat)
deriving DecidableEq, Repr

/-- A JSON value. -/
inductive Value
  | null
  | bool (value : Bool)
  | number (literal : List Char)
  | string (pieces : List Piece)
  | array (items : List Value)
  | object (members : List (List Piece × Value))
deriving Repr

/-- The unit is the first half of a surrogate pair. -/
def isHighSurrogate (code : Nat) : Bool :=
  0xD800 ≤ code && code < 0xDC00

/-- The unit is the second half of a surrogate pair. -/
def isLowSurrogate (code : Nat) : Bool :=
  0xDC00 ≤ code && code < 0xE000

/-- The character of a surrogate pair. -/
def pairChar (high low : Nat) : Char :=
  Char.ofNat (0x10000 + (high - 0xD800) * 0x400 + (low - 0xDC00))

/-- The characters of a string, unless one half of a surrogate pair stands alone. -/
def decode? : List Piece → Option (List Char)
  | [] => some []
  | .char c :: pieces => (decode? pieces).map (c :: ·)
  | .unit high :: .unit low :: pieces =>
    if isHighSurrogate high then
      if isLowSurrogate low then (decode? pieces).map (pairChar high low :: ·) else none
    else if isLowSurrogate high then none
    else (decode? (.unit low :: pieces)).map (Char.ofNat high :: ·)
  | .unit code :: pieces =>
    if isHighSurrogate code || isLowSurrogate code then none
    else (decode? pieces).map (Char.ofNat code :: ·)

/-- The value of a text. -/
def Value.ofString (text : String) : Value :=
  .string (text.toList.map .char)

/-- The value of a number. -/
def Value.ofNat (n : Nat) : Value :=
  .number (Nat.toDigits 10 n)

/-- The object with the given members. -/
def Value.ofMembers (members : List (String × Value)) : Value :=
  .object (members.map fun (key, value) => (key.toList.map .char, value))

end DocAudit.Json

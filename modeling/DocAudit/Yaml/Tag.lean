import DocAudit.Yaml.Scalar
import DocAudit.Yaml.Token

/-!
# Tags, anchors and directives of YAML

How the words that begin with a sign are read: directives, anchors and aliases, and tags with their
handles.
-/

namespace DocAudit.Yaml

/-! ## Anchors -/

/-- The character may follow the name of an anchor. -/
def endsAnchor (cs : List Char) : Bool :=
  atGap cs || cs.head?.any fun c => ['?', ':', ',', ']', '\x7d', '%', '@', '\x60'].contains c

/-- The name of an anchor or alias after its sign, and the text after it. -/
def readAnchorName? (cs : List Char) : Option (List Char × List Char) :=
  let name := cs.takeWhile isWordChar
  let rest := cs.dropWhile isWordChar
  if name.isEmpty || !endsAnchor rest then none else some (name, rest)

/-! ## Tags -/

/-- The character may stand in a tag; in a tag in full the signs of flow sequences may as well. -/
def isTagChar (inFull : Bool) (c : Char) : Bool :=
  isWordChar c ||
    [';', '/', '?', ':', '@', '&', '=', '+', '$', '.', '!', '~', '*', '\'', '(', ')'].contains c ||
    (inFull && [',', '[', ']'].contains c)

/-- A byte written as a percent sign and two hexadecimal digits, and the text after it. -/
def readOctet? : List Char → Option (Nat × List Char)
  | '%' :: a :: b :: cs => (hexNumber? [a, b]).map fun octet => (octet, cs)
  | _ => none

/-- The number of bytes of a character in UTF-8 with the given first byte, and the bits the byte
holds. -/
def leadingOctet? (octet : Nat) : Option (Nat × Nat) :=
  if octet < 0x80 then some (0, octet)
  else if 0xC0 ≤ octet ∧ octet < 0xE0 then some (1, octet - 0xC0)
  else if 0xE0 ≤ octet ∧ octet < 0xF0 then some (2, octet - 0xE0)
  else if 0xF0 ≤ octet ∧ octet < 0xF8 then some (3, octet - 0xF0)
  else none

/-- The code of a character of which `count` bytes are still to come, and the text after them. -/
def readTrailingOctets? (code : Nat) : (count : Nat) → List Char → Option (Nat × List Char)
  | 0, cs => some (code, cs)
  | count + 1, cs => do
    let (octet, rest) ← readOctet? cs
    if 0x80 ≤ octet ∧ octet < 0xC0 then
      readTrailingOctets? (code * 0x40 + (octet - 0x80)) count rest
    else none

/-- A character of which every byte is escaped, and the text after it. -/
def readEscapedChar? (cs : List Char) : Option (Char × List Char) := do
  let (octet, rest) ← readOctet? cs
  let (count, code) ← leadingOctet? octet
  let (code, rest) ← readTrailingOctets? code count rest
  return (Char.ofNat code, rest)

/-- The characters of a tag, and the text after them. The fuel bounds their number. -/
def readTagChars? (inFull : Bool) : (fuel : Nat) → List Char → Option (List Char × List Char)
  | 0, _ => none
  | _, [] => some ([], [])
  | fuel + 1, c :: cs =>
    if c = '%' then do
      let (c, rest) ← readEscapedChar? (c :: cs)
      let (text, rest) ← readTagChars? inFull fuel rest
      return (c :: text, rest)
    else if isTagChar inFull c then
      (readTagChars? inFull fuel cs).map fun (text, rest) => (c :: text, rest)
    else some ([], c :: cs)

/-- The text of a tag and the text after it. -/
def readTagText? (inFull : Bool) (cs : List Char) : Option (List Char × List Char) :=
  readTagChars? inFull (cs.length + 1) cs

/-- A handle at a `!`: that sign alone, or a word between two of them. Without the second sign the word
is no handle, and comes back as the beginning of a tag. -/
def readHandle? : List Char → Option (List Char × Bool × List Char)
  | '!' :: cs =>
    let word := cs.takeWhile isWordChar
    match cs.dropWhile isWordChar with
    | '!' :: rest => some ('!' :: word ++ ['!'], true, rest)
    | rest => some ('!' :: word, false, rest)
  | _ => none

/-- A tag at its `!`, not written in full, and the text after it. -/
def readShortTag? (cs : List Char) : Option (Token × List Char) := do
  let (word, isHandle, afterWord) ← readHandle? cs
  let (text, rest) ← readTagText? false afterWord
  if isHandle then if text.isEmpty then none else some (.tag word text, rest)
  else
    match word.drop 1 ++ text with
    | [] => some (.tag [] ['!'], rest)
    | suffix => some (.tag ['!'] suffix, rest)

/-- A tag at its `!`, and the text after it. -/
def readTag? (inFlow : Bool) (cs : List Char) : Option (Token × List Char) := do
  let (tag, rest) ←
    match cs with
    | '!' :: '<' :: inside => do
      let (text, rest) ← readTagText? true inside
      match rest with
      | '>' :: rest => if text.isEmpty then none else some (Token.tag [] text, rest)
      | _ => none
    | _ => readShortTag? cs
  if atGap rest || (inFlow && rest.head? == some ',') then some (tag, rest) else none

/-! ## Directives -/

/-- A number of at most nine digits and the text after it. -/
def readVersionNumber? (cs : List Char) : Option (Nat × List Char) :=
  let digits := cs.takeWhile Char.isDigit
  if digits.isEmpty || digits.length > 9 then none
  else
    some (digits.foldl (fun number c => number * 10 + (c.toNat - 48)) 0, cs.dropWhile Char.isDigit)

/-- The version of a directive and the text after it. -/
def readVersion? (cs : List Char) : Option (Token × List Char) := do
  let (major, afterMajor) ← readVersionNumber? (cs.dropWhile isBlank)
  match afterMajor with
  | '.' :: afterPoint =>
    let (minor, rest) ← readVersionNumber? afterPoint
    return (.version major minor, rest)
  | _ => none

/-- The handle of a directive with what it means, and the text after them. -/
def readTagHandle? (cs : List Char) : Option (Token × List Char) := do
  let (word, isHandle, afterWord) ← readHandle? (cs.dropWhile isBlank)
  if !isHandle && word.length != 1 then none
  else if !afterWord.head?.any isBlank then none
  else
    let (meaning, rest) ← readTagText? true (afterWord.dropWhile isBlank)
    if meaning.isEmpty || !atGap rest then none else some (.tagHandle word meaning, rest)

/-- A directive after its percent sign, to the end of its line, and the text after that. -/
def readDirective? (cs : List Char) : Option (Token × List Char) := do
  let afterName := cs.dropWhile isWordChar
  if !atGap afterName then none
  else
    let (token, rest) ←
      if cs.takeWhile isWordChar = "YAML".toList then readVersion? afterName
      else if cs.takeWhile isWordChar = "TAG".toList then readTagHandle? afterName
      else none
    let rest ← readBlockHeadEnd? rest
    return (token, rest)

end DocAudit.Yaml

/-!
# Blank characters

The characters of the Unicode property `White_Space`, and the trimming of texts by it. The class is
wider than the blanks of markup, which are space, tab, carriage return and line feed only.
-/

namespace DocAudit.Text

/-- The character has the Unicode property `White_Space`. -/
def isBlankChar (c : Char) : Bool :=
  let code := c.toNat
  (0x09 ≤ code && code ≤ 0x0D) || code == 0x20 || code == 0x85 || code == 0xA0 || code == 0x1680 ||
    (0x2000 ≤ code && code ≤ 0x200A) || code == 0x2028 || code == 0x2029 || code == 0x202F ||
    code == 0x205F || code == 0x3000

/-- The text holds blanks only. -/
def isBlank (cs : List Char) : Bool :=
  cs.all isBlankChar

/-- The text without its leading blanks. -/
def trimStart (cs : List Char) : List Char :=
  cs.dropWhile isBlankChar

/-- The text without the longest run of characters of a class at its end. -/
def dropEndWhile (inClass : Char → Bool) (cs : List Char) : List Char :=
  (cs.reverse.dropWhile inClass).reverse

/-- The text without its trailing blanks. -/
def trimEnd (cs : List Char) : List Char :=
  dropEndWhile isBlankChar cs

/-- The text without its leading and its trailing blanks. -/
def trim (cs : List Char) : List Char :=
  trimEnd (trimStart cs)

end DocAudit.Text

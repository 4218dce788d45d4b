/-!
# Characters of YAML

The characters a YAML text may hold, the classes that tell its tokens apart, and its line breaks. A
text is read with every line break of one or two controls written as a line feed; the separators of
lines and of paragraphs are breaks as well and stay what they are.
-/

namespace DocAudit.Yaml

/-- The character may stand in a YAML text. -/
def isAllowed (c : Char) : Bool :=
  let code := c.toNat
  code == 0x09 || code == 0x0A || code == 0x0D || (0x20 ≤ code && code ≤ 0x7E) || code == 0x85 ||
    (0xA0 ≤ code && code ≤ 0xFFFD) || 0x10000 ≤ code

/-- The character is a line break. -/
def isBreak (c : Char) : Bool :=
  c == '\n' || c.toNat == 0x2028 || c.toNat == 0x2029

/-- The character is a space or a tab. -/
def isBlank (c : Char) : Bool :=
  c == ' ' || c == '\t'

/-- The text is at its end, at a line break or at a blank. -/
def atGap (cs : List Char) : Bool :=
  cs.head?.all fun c => isBlank c || isBreak c

/-- The character may stand in the name of an anchor or a directive. -/
def isWordChar (c : Char) : Bool :=
  c.isAlphanum || c == '_' || c == '-'

/-- The text with its line breaks written in one way. -/
def withUniformBreaks : List Char → List Char
  | [] => []
  | '\r' :: '\n' :: cs => '\n' :: withUniformBreaks cs
  | c :: cs => (if c = '\r' ∨ c.toNat = 0x85 then '\n' else c) :: withUniformBreaks cs

/-- A sign that starts or ends a document stands here, given that a line starts here. -/
def atDocumentSign : List Char → Bool
  | '-' :: '-' :: '-' :: cs => atGap cs
  | '.' :: '.' :: '.' :: cs => atGap cs
  | _ => false

end DocAudit.Yaml

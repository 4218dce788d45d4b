import DocAudit.Yaml.Character

/-!
# Scalars of YAML

The text of a scalar in each of the ways to write it. Lines of plain and quoted scalars are folded:
one line break between words becomes a space, and of several the first is dropped. Blocks are told by
their indentation.
-/

namespace DocAudit.Yaml

/-- The blanks and line breaks between two words of a scalar. -/
inductive Gap
  /-- Blanks on one line, perhaps none. -/
  | blanks (cs : List Char)
  /-- One or more line breaks; the first is left out when it was escaped. -/
  | lines (first : Option Char) (more : List Char)
deriving DecidableEq, Repr

namespace Gap

/-- No gap. -/
def none : Gap := .blanks []

/-- The gap with a further blank. Blanks at the start of a line do not count. -/
def addBlank (c : Char) : Gap → Gap
  | blanks cs => blanks (cs ++ [c])
  | lines first more => lines first more

/-- The gap with a further line break. -/
def addBreak (c : Char) : Gap → Gap
  | blanks _ => lines (some c) []
  | lines first more => lines first (more ++ [c])

/-- What the gap stands for. -/
def fold : Gap → List Char
  | blanks cs => cs
  | lines (some '\n') [] => [' ']
  | lines (some '\n') more => more
  | lines (some c) more => c :: more
  | lines Option.none more => more

/-- The gap holds a line break. -/
def hasBreak : Gap → Bool
  | blanks _ => false
  | lines _ _ => true

end Gap

/-! ## Plain scalars -/

/-- The brackets and the comma of flow collections. -/
def flowSigns : List Char := [',', '[', ']', '\x7b', '\x7d']

/-- A plain scalar with the gap and the text after it. -/
structure PlainScalar where
  /-- The text. -/
  text : List Char
  /-- The gap behind it. -/
  gap : Gap
  /-- What comes next. -/
  rest : List Char

/-- The rest of a plain scalar. `text` has been read, then `gap`, up to `column`; `inFlow` says that
a flow collection is open, and `indent` is the column that further lines must reach outside of one. -/
def readPlain? (inFlow : Bool) (indent : Nat) (text : List Char) (gap : Gap) (column : Nat) :
    List Char → Option PlainScalar
  | [] => some ⟨text, gap, []⟩
  | c :: cs =>
    if isBlank c then
      if gap.hasBreak && column < indent && c == '\t' then none
      else readPlain? inFlow indent text (gap.addBlank c) (column + 1) cs
    else if isBreak c then readPlain? inFlow indent text (gap.addBreak c) 0 cs
    else if gap != .none &&
        ((!inFlow && column < indent) || (column == 0 && atDocumentSign (c :: cs)) || c == '#') then
      some ⟨text, gap, c :: cs⟩
    else if inFlow && c == ':' && (cs.head?.any fun d => d == '?' || flowSigns.contains d) then none
    else if (c == ':' && atGap cs) || (inFlow && flowSigns.contains c) then
      some ⟨text, gap, c :: cs⟩
    else readPlain? inFlow indent (text ++ gap.fold ++ [c]) .none (column + 1) cs

/-! ## Quoted scalars -/

/-- The rest of a scalar in single quotes, where a quote is written twice, and the text after it. -/
def readSingleQuoted? (text : List Char) (gap : Gap) (column : Nat) :
    List Char → Option (List Char × List Char)
  | [] => none
  | '\'' :: '\'' :: cs => readSingleQuoted? (text ++ gap.fold ++ ['\'']) .none (column + 2) cs
  | c :: cs =>
    if isBlank c then readSingleQuoted? text (gap.addBlank c) (column + 1) cs
    else if isBreak c then readSingleQuoted? text (gap.addBreak c) 0 cs
    else if column = 0 ∧ atDocumentSign (c :: cs) = true then none
    else if c = '\'' then some (text ++ gap.fold, cs)
    else readSingleQuoted? (text ++ gap.fold ++ [c]) .none (column + 1) cs

/-- The value of a hexadecimal digit. -/
def hexDigit? (c : Char) : Option Nat :=
  if c.isDigit then some (c.toNat - 48)
  else if 'a' ≤ c ∧ c ≤ 'f' then some (c.toNat - 87)
  else if 'A' ≤ c ∧ c ≤ 'F' then some (c.toNat - 55)
  else none

/-- The number written with hexadecimal digits. -/
def hexNumber? (digits : List Char) : Option Nat :=
  digits.foldlM (fun number c => (hexDigit? c).map (number * 16 + ·)) 0

/-- The character of a code given by hexadecimal digits. -/
def hexChar? (digits : List Char) : Option Char := do
  let code ← hexNumber? digits
  if code.isValidChar then some (Char.ofNat code) else none

/-- The character of an escape of one letter. -/
def escapeChar? : Char → Option Char
  | '0' => some '\x00'
  | 'a' => some '\x07'
  | 'b' => some '\x08'
  | 't' => some '\t'
  | '\t' => some '\t'
  | 'n' => some '\n'
  | 'v' => some '\x0b'
  | 'f' => some '\x0c'
  | 'r' => some '\r'
  | 'e' => some '\x1b'
  | ' ' => some ' '
  | '"' => some '"'
  | '/' => some '/'
  | '\\' => some '\\'
  | 'N' => some '\u0085'
  | '_' => some '\u00a0'
  | 'L' => some '\u2028'
  | 'P' => some '\u2029'
  | _ => none

/-- The rest of a scalar in double quotes and the text after it. -/
def readDoubleQuoted? (text : List Char) (gap : Gap) (column : Nat) :
    List Char → Option (List Char × List Char)
  | [] => none
  | '\\' :: 'x' :: a :: b :: cs => do
    let c ← hexChar? [a, b]
    readDoubleQuoted? (text ++ gap.fold ++ [c]) .none (column + 4) cs
  | '\\' :: 'u' :: a :: b :: c :: d :: cs => do
    let c ← hexChar? [a, b, c, d]
    readDoubleQuoted? (text ++ gap.fold ++ [c]) .none (column + 6) cs
  | '\\' :: 'U' :: a :: b :: c :: d :: e :: f :: g :: h :: cs => do
    let c ← hexChar? [a, b, c, d, e, f, g, h]
    readDoubleQuoted? (text ++ gap.fold ++ [c]) .none (column + 10) cs
  | '\\' :: e :: cs =>
    if isBreak e then readDoubleQuoted? (text ++ gap.fold) (.lines none []) 0 cs
    else do
      let c ← escapeChar? e
      readDoubleQuoted? (text ++ gap.fold ++ [c]) .none (column + 2) cs
  | c :: cs =>
    if isBlank c then readDoubleQuoted? text (gap.addBlank c) (column + 1) cs
    else if isBreak c then readDoubleQuoted? text (gap.addBreak c) 0 cs
    else if column = 0 ∧ atDocumentSign (c :: cs) = true then none
    else if c = '"' then some (text ++ gap.fold, cs)
    else if c = '\\' then none
    else readDoubleQuoted? (text ++ gap.fold ++ [c]) .none (column + 1) cs

/-! ## Block scalars -/

/-- What becomes of the line breaks at the end of a block. -/
inductive Chomping
  /-- None is kept. -/
  | strip
  /-- One is kept. -/
  | clip
  /-- All are kept. -/
  | keep
deriving DecidableEq, Repr

/-- The chomping of a sign. -/
def Chomping.ofSign? : Char → Option Chomping
  | '-' => some .strip
  | '+' => some .keep
  | _ => none

/-- The indentation of a digit; zero is none. -/
def indentation? (c : Char) : Option Nat :=
  if c.isDigit && c != '0' then some (c.toNat - 48) else none

/-- The signs behind the sign of a block, in either order, and the text after them; fails on a zero. -/
def readBlockSigns? : List Char → Option (Chomping × Option Nat × List Char)
  | [] => some (.clip, none, [])
  | c :: cs =>
    match Chomping.ofSign? c with
    | some chomping =>
      match cs with
      | [] => some (chomping, none, [])
      | d :: ds =>
        if d.isDigit then (indentation? d).map fun indent => (chomping, some indent, ds)
        else some (chomping, none, cs)
    | none =>
      if c.isDigit then do
        let indent ← indentation? c
        match cs with
        | [] => some (.clip, some indent, [])
        | d :: ds =>
          match Chomping.ofSign? d with
          | some chomping => some (chomping, some indent, ds)
          | none => some (.clip, some indent, cs)
      else some (.clip, none, c :: cs)

/-- The text after the line of the sign of a block, which may hold a comment. -/
def readBlockHeadEnd? (cs : List Char) : Option (List Char) :=
  let afterBlanks := cs.dropWhile isBlank
  let afterComment :=
    if afterBlanks.head? == some '#' then afterBlanks.dropWhile (!isBreak ·) else afterBlanks
  match afterComment with
  | [] => some []
  | c :: rest => if isBreak c then some rest else none

/-- The empty lines of a block and the indentation of the next line. -/
structure BlockGap where
  /-- The line breaks of the empty lines. -/
  breaks : List Char
  /-- The widest indentation seen. -/
  widest : Nat
  /-- The indentation of the next line, as far as it belongs to the block. -/
  column : Nat
  /-- The text after that indentation. -/
  rest : List Char

/-- Empty lines of a block, from `column` of a line on. `indent` is the indentation of the block, 0
while it is not known. Fails on a tab in the indentation. -/
def readBlockGap? (indent : Nat) (breaks : List Char) (widest column : Nat) :
    List Char → Option BlockGap
  | [] => some ⟨breaks, max widest column, column, []⟩
  | c :: cs =>
    let inIndentation := indent == 0 || column < indent
    if inIndentation && c == ' ' then readBlockGap? indent breaks widest (column + 1) cs
    else if inIndentation && c == '\t' then none
    else if isBreak c then readBlockGap? indent (breaks ++ [c]) (max widest column) 0 cs
    else some ⟨breaks, max widest column, column, c :: cs⟩

/-- What was read of a block: the text, and the line break behind its last line. -/
structure BlockText where
  /-- The text without the last line break. -/
  text : List Char
  /-- The last line break, empty when there is none. -/
  lastBreak : List Char
  /-- The last line starts with a blank. -/
  startsBlank : Bool

/-- The break in front of a line: dropped or made a space where lines are joined, which they are only
when neither of them starts with a blank. -/
def BlockText.joinLine (literal : Bool) (block : BlockText) (breaks : List Char)
    (startsBlank : Bool) : List Char :=
  if !literal && block.lastBreak == ['\n'] && !block.startsBlank && !startsBlank then
    block.text ++ (if breaks.isEmpty then [' '] else breaks)
  else block.text ++ block.lastBreak ++ breaks

/-- The lines of a block from its first or next line on, and the text after the block. The fuel bounds
the number of lines. -/
def readBlockLines? (literal : Bool) (chomping : Chomping) (indent : Nat) :
    (fuel : Nat) → BlockText → BlockGap → Option (List Char × List Char)
  | 0, _, _ => none
  | fuel + 1, block, gap =>
    if gap.column = indent ∧ gap.rest ≠ [] then
      let startsBlank := gap.rest.head?.any isBlank
      let joined := block.joinLine literal gap.breaks startsBlank
      let line := gap.rest.takeWhile (!isBreak ·)
      let beyond := gap.rest.dropWhile (!isBreak ·)
      do
        let next ← readBlockGap? indent [] 0 0 (beyond.drop 1)
        readBlockLines? literal chomping indent fuel
          ⟨joined ++ line, beyond.take 1, startsBlank⟩ next
    else
      match chomping with
      | .strip => some (block.text, gap.rest)
      | .clip => some (block.text ++ block.lastBreak, gap.rest)
      | .keep => some (block.text ++ block.lastBreak ++ gap.breaks, gap.rest)

/-- A block after its sign, and the text after it. `outer` is the least indentation the block may
have. -/
def readBlock? (literal : Bool) (outer : Nat) (cs : List Char) :
    Option (List Char × List Char) := do
  let (chomping, indent?, afterSigns) ← readBlockSigns? cs
  let body ← readBlockHeadEnd? afterSigns
  let given :=
    match indent? with
    | some indent => outer - 1 + indent
    | none => 0
  let gap ← readBlockGap? given [] 0 0 body
  let indent := if given = 0 then max (max gap.widest outer) 1 else given
  readBlockLines? literal chomping indent (cs.length + 1) ⟨[], [], false⟩ gap

end DocAudit.Yaml

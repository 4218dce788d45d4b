import DocAudit.Yaml.Tag

/-!
# The tokens of a text

A text is cut into tokens with an eye on indentation. A mapping in a block does not announce its keys:
a scalar or collection turns out to be a key when a colon follows on the same line, and the tokens that
say so are then put in front of it.
-/

namespace DocAudit.Yaml

/-- A place where a key may have begun. -/
structure PossibleKey where
  /-- Nothing but a key can stand there. -/
  isRequired : Bool
  /-- The number of tokens in front of it. -/
  tokenIndex : Nat
  /-- The number of characters in front of it. -/
  index : Nat
  /-- Its line. -/
  line : Nat
  /-- Its column. -/
  column : Nat
deriving Repr

/-- The state of cutting a text into tokens. -/
structure Tokenizer where
  /-- The text that is left. -/
  rest : List Char
  /-- The number of characters read. -/
  index : Nat
  /-- The number of lines read. -/
  line : Nat
  /-- The number of characters read in the line. -/
  column : Nat
  /-- The tokens so far. -/
  tokens : List Token
  /-- The columns of the open block collections, innermost first. -/
  indents : List Nat
  /-- Where a key may have begun: outside of all flow collections last, in the innermost first. -/
  keys : List (Option PossibleKey)
  /-- A key may begin here. -/
  allowsKey : Bool
deriving Repr

namespace Tokenizer

/-- The state at the beginning of a text. -/
def start (text : List Char) : Tokenizer :=
  ⟨text, 0, 0, 0, [], [], [none], true⟩

/-- A flow collection is open. -/
def inFlow (state : Tokenizer) : Bool :=
  state.keys.length > 1

/-- The least column that the inside of the innermost block collection may have. -/
def outerIndent (state : Tokenizer) : Nat :=
  match state.indents with
  | [] => 0
  | indent :: _ => indent + 1

/-- One character is read. -/
def step (state : Tokenizer) : Tokenizer :=
  match state.rest with
  | [] => state
  | c :: cs =>
    if isBreak c then
      { state with rest := cs, index := state.index + 1, line := state.line + 1, column := 0 }
    else { state with rest := cs, index := state.index + 1, column := state.column + 1 }

/-- A number of characters is read. -/
def advance (state : Tokenizer) : (count : Nat) → Tokenizer
  | 0 => state
  | count + 1 => state.step.advance count

/-- Everything in front of a rest of the text is read. -/
def moveTo (state : Tokenizer) (rest : List Char) : Tokenizer :=
  state.advance (state.rest.length - rest.length)

/-- A further token. -/
def emit (token : Token) (state : Tokenizer) : Tokenizer :=
  { state with tokens := state.tokens ++ [token] }

/-- A token in front of those from a number on. -/
def insertAt (index : Nat) (token : Token) (state : Tokenizer) : Tokenizer :=
  { state with tokens := state.tokens.take index ++ token :: state.tokens.drop index }

/-- Whether a key may begin at the next token. -/
def allowKey (isAllowed : Bool) (state : Tokenizer) : Tokenizer :=
  { state with allowsKey := isAllowed }

/-- The place where a key may have begun is given up. Fails when there had to be a key. -/
def dropKey? (state : Tokenizer) : Option Tokenizer :=
  match state.keys with
  | some key :: outer =>
    if key.isRequired then none else some { state with keys := none :: outer }
  | _ => some state

/-- A key may begin here, if one is allowed. -/
def saveKey? (state : Tokenizer) : Option Tokenizer :=
  if state.allowsKey then do
    let state ← state.dropKey?
    let key : PossibleKey :=
      { isRequired := !state.inFlow && state.indents.head? == some state.column
        tokenIndex := state.tokens.length
        index := state.index
        line := state.line
        column := state.column }
    return { state with keys := some key :: state.keys.drop 1 }
  else some state

/-- The number of characters a key may span. -/
def keySpan : Nat := 1024

/-- The place is too far back for a key to have begun there. -/
def isStale (state : Tokenizer) (key : PossibleKey) : Bool :=
  key.line < state.line || key.index + keySpan < state.index

/-- Places too far back are given up. Fails when there had to be a key. -/
def dropStaleKeys? (state : Tokenizer) : Option Tokenizer := do
  let keys ← state.keys.mapM fun key? =>
    match key? with
    | some key =>
      if state.isStale key then if key.isRequired then none else some none else some (some key)
    | none => some none
  return { state with keys }

/-- Blanks, comments and line breaks in front of the next token. Tabs do not indent. -/
def skipSpace (state : Tokenizer) (inComment : Bool) : List Char → Tokenizer
  | [] => state
  | c :: cs =>
    if isBreak c then
      (if state.inFlow then state.step else state.step.allowKey true).skipSpace false cs
    else if inComment || c == '#' then state.step.skipSpace true cs
    else if c == ' ' || (c == '\t' && (state.inFlow || !state.allowsKey)) then
      state.step.skipSpace false cs
    else state

/-- A block collection starts at a column, unless one of that column is open: its token goes in front
of those from a number on. -/
def openBlock (column : Nat) (index : Nat) (token : Token) (state : Tokenizer) : Tokenizer :=
  if state.inFlow || !state.indents.head?.all (· < column) then state
  else { state.insertAt index token with indents := column :: state.indents }

/-- The block collections that end in front of a column. -/
def closeBlocks (keeps : Nat → Bool) (state : Tokenizer) : Tokenizer :=
  if state.inFlow then state
  else
    let ended := state.indents.takeWhile (!keeps ·)
    { state with
      tokens := state.tokens ++ ended.map fun _ => Token.blockEnd
      indents := state.indents.dropWhile (!keeps ·) }

/-- A token of one or more signs that starts or ends something, of the given length. -/
def sign (length : Nat) (token : Token) (state : Tokenizer) : Tokenizer :=
  (state.emit token).advance length

/-- The sign that starts or ends a document. -/
def documentSign? (token : Token) (state : Tokenizer) : Option Tokenizer := do
  let state ← (state.closeBlocks fun _ => false).dropKey?
  return (state.allowKey false).sign 3 token

/-- The sign that starts a flow collection. -/
def openFlow? (token : Token) (state : Tokenizer) : Option Tokenizer := do
  let state ← state.saveKey?
  return ({ state with keys := none :: state.keys }.allowKey true).sign 1 token

/-- The sign that ends a flow collection. -/
def closeFlow? (token : Token) (state : Tokenizer) : Option Tokenizer := do
  let state ← state.dropKey?
  let keys := if state.inFlow then state.keys.drop 1 else state.keys
  return ({ state with keys }.allowKey false).sign 1 token

/-- The comma. -/
def comma? (state : Tokenizer) : Option Tokenizer := do
  let state ← state.dropKey?
  return (state.allowKey true).sign 1 .flowEntry

/-- A sign that may start a block collection here. Fails where no key is allowed. -/
def startBlock? (token : Token) (state : Tokenizer) : Option Tokenizer :=
  if state.inFlow then some state
  else if state.allowsKey then some (state.openBlock state.column state.tokens.length token)
  else none

/-- The dash. -/
def dash? (state : Tokenizer) : Option Tokenizer := do
  let state ← (← state.startBlock? .blockSequenceStart).dropKey?
  return (state.allowKey true).sign 1 .blockEntry

/-- The question mark. -/
def key? (state : Tokenizer) : Option Tokenizer := do
  let state ← (← state.startBlock? .blockMappingStart).dropKey?
  return (state.allowKey !state.inFlow).sign 1 .key

/-- The colon. What stands in front of it is a key, if one may have begun there. -/
def value? (state : Tokenizer) : Option Tokenizer :=
  match state.keys with
  | some key :: outer =>
    let state := { state.insertAt key.tokenIndex .key with keys := none :: outer }
    let state := state.openBlock key.column key.tokenIndex .blockMappingStart
    some ((state.allowKey false).sign 1 .value)
  | _ => do
    let state ← state.startBlock? .blockMappingStart
    return (state.allowKey !state.inFlow).sign 1 .value

/-- A word that may be a key or stand in front of one, and the text after it. -/
def word? (read : List Char → Option (Token × List Char)) (state : Tokenizer) :
    Option Tokenizer := do
  let state ← state.saveKey?
  let (token, rest) ← read state.rest
  return ((state.moveTo rest).allowKey false).emit token

/-- A quoted scalar. -/
def quoted? (read : List Char → Nat → List Char → Option (List Char × List Char))
    (state : Tokenizer) : Option Tokenizer :=
  state.word? fun cs =>
    (read [] (state.column + 1) (cs.drop 1)).map fun (text, rest) => (.scalar .quoted text, rest)

/-- A plain scalar. A key may begin behind it if it ended with its line. -/
def plain? (state : Tokenizer) : Option Tokenizer := do
  let state ← state.saveKey?
  let scalar ←
    readPlain? state.inFlow state.outerIndent [] .none state.column state.rest
  return ((state.moveTo scalar.rest).allowKey scalar.gap.hasBreak).emit (.scalar .plain scalar.text)

/-- A scalar written as a block. -/
def block? (style : ScalarStyle) (state : Tokenizer) : Option Tokenizer := do
  let state ← state.dropKey?
  let (text, rest) ← readBlock? (style == .literal) state.outerIndent (state.rest.drop 1)
  return ((state.moveTo rest).allowKey true).emit (.scalar style text)

/-- A directive. -/
def directive? (state : Tokenizer) : Option Tokenizer := do
  let state ← (state.closeBlocks fun _ => false).dropKey?
  let (token, rest) ← readDirective? (state.rest.drop 1)
  return ((state.moveTo rest).allowKey false).emit token

/-- The signs that begin no plain scalar. -/
def signs : List Char :=
  ['-', '?', ':', ',', '[', ']', '\x7b', '\x7d', '#', '&', '*', '!', '|', '>', '\'', '"', '%', '@',
    '\x60']

/-- A plain scalar begins here. -/
def startsPlain (state : Tokenizer) (c : Char) (cs : List Char) : Bool :=
  !(isBlank c || signs.contains c) || (c == '-' && !cs.head?.any isBlank) ||
    (!state.inFlow && (c == '?' || c == ':') && !atGap cs)

/-- The next token, which begins with the given character. -/
def next? (state : Tokenizer) (c : Char) (cs : List Char) : Option Tokenizer :=
  if state.column = 0 ∧ c = '%' then state.directive?
  else if state.column = 0 ∧ atDocumentSign (c :: cs) = true then
    state.documentSign? (if c = '-' then .documentStart else .documentEnd)
  else if c = '[' then state.openFlow? .flowSequenceStart
  else if c = '\x7b' then state.openFlow? .flowMappingStart
  else if c = ']' then state.closeFlow? .flowSequenceEnd
  else if c = '\x7d' then state.closeFlow? .flowMappingEnd
  else if c = ',' then state.comma?
  else if c = '-' ∧ atGap cs = true then state.dash?
  else if c = '?' ∧ (state.inFlow || atGap cs) = true then state.key?
  else if c = ':' ∧ (state.inFlow || atGap cs) = true then state.value?
  else if c = '*' then
    state.word? fun cs =>
      (readAnchorName? (cs.drop 1)).map fun (name, rest) => (.alias name, rest)
  else if c = '&' then
    state.word? fun cs =>
      (readAnchorName? (cs.drop 1)).map fun (name, rest) => (.anchor name, rest)
  else if c = '!' then state.word? (readTag? state.inFlow)
  else if c = '|' ∧ state.inFlow = false then state.block? .literal
  else if c = '>' ∧ state.inFlow = false then state.block? .folded
  else if c = '\'' then state.quoted? fun text => readSingleQuoted? text .none
  else if c = '"' then state.quoted? fun text => readDoubleQuoted? text .none
  else if state.startsPlain c cs then state.plain?
  else none

/-- The end of the text: everything open ends. -/
def finish? (state : Tokenizer) : Option Tokenizer :=
  (state.closeBlocks fun _ => false).dropKey?

/-- All tokens. The fuel bounds their number; each takes at least one character. -/
def run? : (fuel : Nat) → Tokenizer → Option (List Token)
  | 0, _ => none
  | fuel + 1, state => do
    let state ← (state.skipSpace false state.rest).dropStaleKeys?
    let state := state.closeBlocks (· ≤ state.column)
    match state.rest with
    | [] => (← state.finish?).tokens
    | c :: cs => run? fuel (← state.next? c cs)

end Tokenizer

/-- The tokens of a text, if it holds no other. -/
def tokens? (text : List Char) : Option (List Token) :=
  if text.all isAllowed then
    let body :=
      match text with
      | '\uFEFF' :: cs => cs
      | cs => cs
    (Tokenizer.start (withUniformBreaks body)).run? (body.length + 2)
  else none

end DocAudit.Yaml

import DocAudit.Yaml.Tokens

/-!
# Documents of YAML

The tokens of a text make a document: a tree of scalars, sequences and mappings, with aliases that
stand for nodes seen before. A text holds one document or none.

An anchor is numbered by the count of different names known when it is set, so that a name set anew
gives its old number away; an alias stands for the node that took its number last.
-/

namespace DocAudit.Yaml

/-- A scalar. -/
structure Scalar where
  /-- How it is written. -/
  style : ScalarStyle
  /-- Its tag in full, if it has one. -/
  tag : Option (List Char)
  /-- Its text. -/
  text : List Char
deriving DecidableEq, Repr

/-- A node of a document. -/
inductive Node
  | scalar (scalar : Scalar)
  | sequence (items : List Node)
  | mapping (entries : List (Node × Node))
  /-- The node that took this number last. -/
  | alias (number : Nat)
deriving Repr

/-- A document. -/
structure Document where
  /-- Its root. -/
  root : Node
  /-- The anchored nodes by their numbers, the latest first: the scalars, and `none` for a
  collection. -/
  anchored : List (Nat × Option Scalar)
deriving Repr

/-- The state of reading a document. -/
structure DocumentReader where
  /-- The tokens that are left. -/
  tokens : List Token
  /-- What the handles of tags stand for. -/
  handles : List (List Char × List Char)
  /-- The numbers of the anchors. -/
  anchors : List (List Char × Nat)
  /-- The anchored nodes by their numbers, the latest first. -/
  anchored : List (Nat × Option Scalar)

namespace DocumentReader

/-- A step of reading, which may fail. -/
abbrev Step := StateT DocumentReader Option

/-- The next token, which stays. -/
def peek? : Step (Option Token) :=
  return (← get).tokens.head?

/-- The next token is passed over. -/
def skip : Step Unit :=
  modify fun reader => { reader with tokens := reader.tokens.drop 1 }

/-- The next token is one of those given. -/
def nextIsOneOf (tokens : List Token) : Step Bool := do
  match ← peek? with
  | none => return false
  | some token => return tokens.contains token

/-- The tag that a handle and the rest of a tag make. Fails on an unknown handle. -/
def resolveTag? (handle suffix : List Char) : Step (List Char) := do
  if handle.isEmpty then return suffix
  match (← get).handles.find? (·.1 == handle) with
  | some (_, meaning) => return meaning ++ suffix
  | none => failure

/-- An anchor is set at a node. -/
def setAnchor (name : List Char) (target : Option Scalar) : Step Unit :=
  modify fun reader =>
    let number := reader.anchors.length
    { reader with
      anchors := (name, number) :: reader.anchors.filter (·.1 != name)
      anchored := (number, target) :: reader.anchored }

/-- What may stand in front of a node. -/
structure Properties where
  /-- The name of its anchor. -/
  anchor : Option (List Char) := none
  /-- Its tag in full. -/
  tag : Option (List Char) := none

/-- A tag in front of a node that has none yet. -/
def readTagProperty (properties : Properties) : Step Properties := do
  match ← peek? with
  | some (.tag handle suffix) =>
    skip
    return { properties with tag := some (← resolveTag? handle suffix) }
  | _ => return properties

/-- An anchor in front of a node that has none yet. -/
def readAnchorProperty (properties : Properties) : Step Properties := do
  match ← peek? with
  | some (.anchor name) =>
    skip
    return { properties with anchor := some name }
  | _ => return properties

/-- An anchor and a tag, in either order. -/
def readProperties : Step Properties := do
  match ← peek? with
  | some (.anchor _) => readTagProperty (← readAnchorProperty {})
  | _ => readAnchorProperty (← readTagProperty {})

/-- The anchor in front of a node is set at it. -/
def setProperties (properties : Properties) (target : Option Scalar) : Step Unit :=
  match properties.anchor with
  | some name => setAnchor name target
  | none => return

/-- A scalar that is not written. -/
def emptyNode : Node := .scalar ⟨.plain, none, []⟩

/-- A scalar with its properties. -/
def scalarNode (properties : Properties) (style : ScalarStyle) (text : List Char) : Step Node := do
  let scalar : Scalar := ⟨style, properties.tag, text⟩
  setProperties properties (some scalar)
  return .scalar scalar

/-- The node an alias stands for. Fails when its name is not known. -/
def aliasNode (name : List Char) : Step Node := do
  match (← get).anchors.find? (·.1 == name) with
  | some (_, number) => return .alias number
  | none => failure

/-- Properties may stand alone, for an empty scalar; nothing at all is no node. -/
def readMissing (properties : Properties) : Step Node :=
  if properties.anchor.isSome || properties.tag.isSome then scalarNode properties .plain []
  else failure

/-- A node read by the given step, or the empty scalar in front of one of the given tokens. -/
def readBefore (ends : List Token) (read : Step Node) : Step Node := do
  if ← nextIsOneOf ends then return emptyNode else read

/-- A value behind its colon; without a colon it is empty. -/
def readValue (ends : List Token) (read : Step Node) : Step Node := do
  match ← peek? with
  | some .value =>
    skip
    readBefore ends read
  | _ => return emptyNode

/-- The key of a single entry in a flow sequence. Where there is none, the sign in its place goes. -/
def readSingleKey (read : Step Node) : Step Node := do
  if ← nextIsOneOf [.value, .flowEntry, .flowSequenceEnd] then
    skip
    return emptyNode
  else read

/-- The comma in front of every item of a flow collection but the first. -/
def readComma (isFirst : Bool) : Step Unit := do
  if !isFirst then
    if (← peek?) == some .flowEntry then skip else failure

/-- The end of a flow collection, if it comes next. -/
def readEnd (ending : Token) : Step Bool := do
  if (← peek?) == some ending then
    skip
    return true
  else return false

/-- The tokens in front of which the key or the value of a block mapping is empty. -/
def entryEnds : List Token := [.key, .value, .blockEnd]

mutual

/-- A node. A block collection may start where `inBlock` says so, and a sequence without indentation
of its own where `asValue` does. The fuel bounds the depth of the recursion. -/
def readNode : (fuel : Nat) → (inBlock asValue : Bool) → Step Node
  | 0, _, _ => failure
  | fuel + 1, inBlock, asValue => do
    match ← peek? with
    | some (.alias name) =>
      skip
      aliasNode name
    | _ =>
      let properties ← readProperties
      match ← peek?, asValue, inBlock with
      | some .blockEntry, true, _ =>
        setProperties properties none
        return .sequence (← readPlainItems fuel)
      | some (.scalar style text), _, _ =>
        skip
        scalarNode properties style text
      | some .flowSequenceStart, _, _ =>
        skip
        setProperties properties none
        return .sequence (← readFlowItems fuel true)
      | some .flowMappingStart, _, _ =>
        skip
        setProperties properties none
        return .mapping (← readFlowEntries fuel true)
      | some .blockSequenceStart, _, true =>
        skip
        setProperties properties none
        return .sequence (← readBlockItems fuel)
      | some .blockMappingStart, _, true =>
        skip
        setProperties properties none
        return .mapping (← readBlockEntries fuel)
      | _, _, _ => readMissing properties

/-- The items of a block sequence, up to its end. -/
def readBlockItems : (fuel : Nat) → Step (List Node)
  | 0 => failure
  | fuel + 1 => do
    match ← peek? with
    | some .blockEntry =>
      skip
      let item ← readBefore [.blockEntry, .blockEnd] (readNode fuel true false)
      return item :: (← readBlockItems fuel)
    | some .blockEnd =>
      skip
      return []
    | _ => failure

/-- The items of a sequence that is the value of a key and not indented. -/
def readPlainItems : (fuel : Nat) → Step (List Node)
  | 0 => failure
  | fuel + 1 => do
    match ← peek? with
    | some .blockEntry =>
      skip
      let item ← readBefore (.blockEntry :: entryEnds) (readNode fuel true false)
      return item :: (← readPlainItems fuel)
    | _ => return []

/-- The entries of a block mapping, up to its end. -/
def readBlockEntries : (fuel : Nat) → Step (List (Node × Node))
  | 0 => failure
  | fuel + 1 => do
    match ← peek? with
    | some .key =>
      skip
      let key ← readBefore entryEnds (readNode fuel true true)
      let value ← readValue entryEnds (readNode fuel true true)
      return (key, value) :: (← readBlockEntries fuel)
    | some .blockEnd =>
      skip
      return []
    | _ => failure

/-- The items of a flow sequence, up to its end. -/
def readFlowItems : (fuel : Nat) → (isFirst : Bool) → Step (List Node)
  | 0, _ => failure
  | fuel + 1, isFirst => do
    if ← readEnd .flowSequenceEnd then return []
    readComma isFirst
    if ← readEnd .flowSequenceEnd then return []
    match ← peek? with
    | some .key =>
      skip
      let key ← readSingleKey (readNode fuel false false)
      let value ← readValue [.flowEntry, .flowSequenceEnd] (readNode fuel false false)
      return .mapping [(key, value)] :: (← readFlowItems fuel false)
    | _ =>
      let item ← readNode fuel false false
      return item :: (← readFlowItems fuel false)

/-- The entries of a flow mapping, up to its end. -/
def readFlowEntries : (fuel : Nat) → (isFirst : Bool) → Step (List (Node × Node))
  | 0, _ => failure
  | fuel + 1, isFirst => do
    if ← readEnd .flowMappingEnd then return []
    readComma isFirst
    if ← readEnd .flowMappingEnd then return []
    match ← peek? with
    | some .key =>
      skip
      let ends : List Token := [.flowEntry, .flowMappingEnd]
      let key ← readBefore (.value :: ends) (readNode fuel false false)
      let value ← readValue ends (readNode fuel false false)
      return (key, value) :: (← readFlowEntries fuel false)
    | _ =>
      let key ← readNode fuel false false
      return (key, emptyNode) :: (← readFlowEntries fuel false)

end

/-- The handles every document knows. -/
def defaultHandles : List (List Char × List Char) :=
  [(['!'], ['!']), (['!', '!'], "tag:yaml.org,2002:".toList)]

/-- The directives of a document. Fails on a version that is not 1.1 or 1.2, and on a directive given
twice. The fuel bounds their number. -/
def readDirectives : (fuel : Nat) → (hasVersion : Bool) → Step Unit
  | 0, _ => failure
  | fuel + 1, hasVersion => do
    match ← peek? with
    | some (.version major minor) =>
      if hasVersion || major != 1 || (minor != 1 && minor != 2) then failure
      skip
      readDirectives fuel true
    | some (.tagHandle handle meaning) =>
      if (← get).handles.any (·.1 == handle) then failure
      skip
      modify fun reader => { reader with handles := (handle, meaning) :: reader.handles }
      readDirectives fuel hasVersion
    | _ => return

/-- The root of a document behind its start; without one the document is an empty scalar. -/
def readContent (fuel : Nat) : Step Node := do
  match ← peek? with
  | none | some (.version _ _) | some (.tagHandle _ _) | some .documentStart | some .documentEnd =>
    return emptyNode
  | _ => readNode fuel true false

/-- The signs of ended documents. -/
def skipDocumentEnds : Step Unit :=
  modify fun reader => { reader with tokens := reader.tokens.dropWhile (· == .documentEnd) }

/-- The first document. It may do without a start if it has no directives. -/
def readDocument (fuel : Nat) : Step Node := do
  let count := (← get).tokens.length
  readDirectives (count + 1) false
  modify fun reader => { reader with handles := reader.handles ++ defaultHandles }
  match ← peek? with
  | some .documentStart =>
    skip
    readContent fuel
  | _ => if (← get).tokens.length == count then readNode fuel true false else failure

/-- The first document, with nothing after it. -/
def readOnly (fuel : Nat) : Step Node := do
  let root ← readDocument fuel
  skipDocumentEnds
  if (← get).tokens.isEmpty then return root else failure

end DocumentReader

/-- The document of a text, or none when the text is empty. Fails on a text that is no YAML, or holds
more than one document. -/
def document? (text : List Char) : Option (Option Document) := do
  let tokens ← tokens? text
  if tokens.isEmpty then return none
  let (root, reader) ←
    (DocumentReader.readOnly (4 * tokens.length + 4)).run ⟨tokens, [], [], []⟩
  return some ⟨root, reader.anchored⟩

end DocAudit.Yaml

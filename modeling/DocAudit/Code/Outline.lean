import DocAudit.Code.Node

/-!
# Outlines

The written form of a tree of source code: one row per node, in the order of the text, with the depth
of the node, a letter that tells named nodes from tokens (a capital one marks a missing node), the
kind, the byte range, and the role in the parent if there is one. A row belongs to the nearest row
above it that is less deep.
-/

namespace DocAudit.Code.Outline

/-- A row of an outline. -/
structure Row where
  /-- The distance from the root. -/
  depth : Nat
  /-- What the row says about its node. -/
  label : Label
deriving Repr

/-- Whether a node is named, and whether it is missing. -/
def readFlag? : String → Option (Bool × Bool)
  | "n" => some (true, false)
  | "a" => some (false, false)
  | "N" => some (true, true)
  | "A" => some (false, true)
  | _ => none

/-- A row from its columns. -/
def Row.ofColumns? : List String → Option Row
  | depth :: flag :: kind :: start :: stop :: role => do
    let depth ← depth.toNat?
    let (isNamed, isMissing) ← readFlag? flag
    let start ← start.toNat?
    let stop ← stop.toNat?
    return { depth, label := { kind, isNamed, isMissing, start, stop, field := role.head? } }
  | _ => none

/-- A row from its text; the columns are separated by one space. -/
def Row.parse? (line : List Char) : Option Row :=
  Row.ofColumns? ((Text.splitAt ' ' line).map String.ofList)

/-- One row in front of trees whose depths are known: the deeper trees that follow are its
children. -/
def graft (row : Row) (later : List (Nat × Node)) : List (Nat × Node) :=
  let deeper := later.takeWhile (row.depth < ·.1)
  (row.depth, .mk row.label (deeper.map (·.2))) :: later.dropWhile (row.depth < ·.1)

/-- The tree of a list of rows: the one that starts with the first row. -/
def build? (rows : List Row) : Option Node :=
  (rows.foldr graft []).head?.map (·.2)

/-- The tree of an outline. -/
def parse? (outline : List Char) : Option Node := do
  let rows ← (Text.splitAt '\n' outline).mapM Row.parse?
  build? rows

end DocAudit.Code.Outline

import DocAudit.Comment.Content
import DocAudit.Declaration.Basic
import DocAudit.Finding.Verdict

/-!
# Returns

The tag that documents the value given back must agree with the declaration: there is one such tag
with content when a value is given back, and none when nothing is.
-/

namespace DocAudit.Declaration

/-- The tag that documents the value given back. -/
def returnsTag : String := "returns"

/-- The verdict on the first tag, or on its absence. -/
def returnsVerdict? (source : List Char) (declaration : Declaration) (doc : DocComment) :
    ReturnShape → Option Markup.Element → Option Verdict
  | .void, some first => some (.ofElement doc first .returnsOnVoidMember [])
  | .void, none => none
  | .value, none =>
    some
      { smell := .missingReturns, tagName := returnsTag, position := declaration.anchor,
        excerpt := declaration.heading source, details := [] }
  | .value, some first =>
    if first.isMeaningful then none else some (.ofElement doc first .emptyReturns [])

/-- The verdicts on the return documentation of a documented declaration: the duplicates, then what
is wrong with the first tag. -/
def returnsVerdicts (source : List Char) (declaration : Declaration) : List Verdict :=
  match declaration.form.returns?, declaration.doc with
  | some shape, some doc =>
    let tags := doc.elementsNamed returnsTag
    (tags.drop 1).map (.ofElement doc · .duplicateReturnsTag []) ++
      (returnsVerdict? source declaration doc shape tags.head?).toList
  | _, _ => []

end DocAudit.Declaration

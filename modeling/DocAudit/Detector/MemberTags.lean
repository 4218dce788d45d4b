import DocAudit.Declaration.Basic
import DocAudit.Finding.Verdict
import DocAudit.Vocabulary

/-!
# Tags for the kind of member

A known tag at the top level of a comment must be one that members of the documented kind may have.
Unknown tags are judged elsewhere.
-/

namespace DocAudit.Declaration

/-- A known tag that a member of this kind may not have. -/
def isMisplaced (kind : MemberKind) (tagName : String) : Bool :=
  Vocabulary.isKnown tagName && !Vocabulary.isAllowedOn kind tagName

/-- The verdicts on the top level tags of a documented declaration. -/
def memberTagVerdicts (declaration : Declaration) : List Verdict :=
  match declaration.doc with
  | none => []
  | some doc =>
    (doc.topLevel.filter fun element => isMisplaced declaration.kind element.tag.name).map
      fun element =>
        .ofElement doc element .invalidTagOnMember
          [element.tag.name, declaration.kind.displayName]

end DocAudit.Declaration

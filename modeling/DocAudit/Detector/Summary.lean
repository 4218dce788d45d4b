import DocAudit.Comment.Content
import DocAudit.Declaration.Basic
import DocAudit.Finding.Verdict
import DocAudit.Options.Basic

/-!
# Documentation and summary

A declaration needs a doc comment, and the comment a summary that says something. The options leave
out kinds of declarations altogether, or let documented fields do without a summary.
-/

namespace DocAudit

/-- Declarations of this kind are checked for documentation. -/
def Options.covers (options : Options) : MemberKind → Bool
  | .enumMember => options.checkEnumMembers
  | .namespaceScope => options.requireDocumentationForNamespaces
  | _ => true

/-- A documented declaration of this kind needs a summary. -/
def Options.needsSummary (options : Options) : MemberKind → Bool
  | .field | .eventField => options.requireSummaryForFields
  | _ => true

namespace Declaration

/-- The tag of summaries. -/
def summaryTag : String := "summary"

/-- The verdict on the summary of a doc comment. -/
def summaryVerdicts (doc : DocComment) : List Verdict :=
  match doc.elementsNamed summaryTag with
  | [] =>
    [{ smell := .missingSummary, tagName := summaryTag, position := doc.start,
       excerpt := doc.markup, details := [] }]
  | summary :: _ =>
    if summary.isMeaningful then [] else [.ofElement doc summary .emptySummary []]

/-- The verdict on the documentation of a declaration. -/
def documentationVerdicts (options : Options) (source : List Char) (declaration : Declaration) :
    List Verdict :=
  if !options.covers declaration.kind then []
  else
    match declaration.doc with
    | none =>
      [{ smell := .missingDocumentation, tagName := "", position := declaration.anchor,
         excerpt := declaration.heading source,
         details := [declaration.kind.displayName, declaration.name] }]
    | some doc => if options.needsSummary declaration.kind then summaryVerdicts doc else []

end Declaration
end DocAudit

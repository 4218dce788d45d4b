import DocAudit.Text.Replace

/-!
# Smells

The kinds of defect a doc comment can have, each with a stable rule id and a message. A message is a
template whose numbered holes are filled with the details of the finding, one detail after the other:
a hole that a detail brings along is filled by a later detail.
-/

namespace DocAudit

/-- A kind of documentation defect. -/
inductive Smell
  | unknownTag
  | missingEndTag
  | missingDocumentation
  | missingSummary
  | emptySummary
  | paramMissingName
  | missingParamTag
  | emptyParamDescription
  | unknownParamTag
  | paramRefNotEmpty
  | duplicateParamTag
  | typeParamMissingName
  | missingTypeParamTag
  | emptyTypeParamDescription
  | unknownTypeParamTag
  | typeParamRefNotEmpty
  | duplicateTypeParamTag
  | missingReturns
  | emptyReturns
  | returnsOnVoidMember
  | duplicateReturnsTag
  | exceptionMissingCref
  | emptyExceptionDescription
  | duplicateExceptionTag
  | rethrowCannotInferException
  | invalidTagOnMember
deriving DecidableEq, Repr

namespace Smell

/-- Every smell, in the order of the rule ids. -/
def all : List Smell :=
  [unknownTag, missingEndTag, missingDocumentation, missingSummary, emptySummary, paramMissingName,
    missingParamTag, emptyParamDescription, unknownParamTag, paramRefNotEmpty, duplicateParamTag,
    typeParamMissingName, missingTypeParamTag, emptyTypeParamDescription, unknownTypeParamTag,
    typeParamRefNotEmpty, duplicateTypeParamTag, missingReturns, emptyReturns, returnsOnVoidMember,
    duplicateReturnsTag, exceptionMissingCref, emptyExceptionDescription, duplicateExceptionTag,
    rethrowCannotInferException, invalidTagOnMember]

/-- The name under which reports give the smell. -/
def name : Smell → String
  | unknownTag => "UnknownTag"
  | missingEndTag => "MissingEndTag"
  | missingDocumentation => "MissingDocumentation"
  | missingSummary => "MissingSummary"
  | emptySummary => "EmptySummary"
  | paramMissingName => "ParamMissingName"
  | missingParamTag => "MissingParamTag"
  | emptyParamDescription => "EmptyParamDescription"
  | unknownParamTag => "UnknownParamTag"
  | paramRefNotEmpty => "ParamRefNotEmpty"
  | duplicateParamTag => "DuplicateParamTag"
  | typeParamMissingName => "TypeParamMissingName"
  | missingTypeParamTag => "MissingTypeParamTag"
  | emptyTypeParamDescription => "EmptyTypeParamDescription"
  | unknownTypeParamTag => "UnknownTypeParamTag"
  | typeParamRefNotEmpty => "TypeParamRefNotEmpty"
  | duplicateTypeParamTag => "DuplicateTypeParamTag"
  | missingReturns => "MissingReturns"
  | emptyReturns => "EmptyReturns"
  | returnsOnVoidMember => "ReturnsOnVoidMember"
  | duplicateReturnsTag => "DuplicateReturnsTag"
  | exceptionMissingCref => "ExceptionMissingCref"
  | emptyExceptionDescription => "EmptyExceptionDescription"
  | duplicateExceptionTag => "DuplicateExceptionTag"
  | rethrowCannotInferException => "RethrowCannotInferException"
  | invalidTagOnMember => "InvalidTagOnMember"

/-- The smell of a name. -/
def ofName? (name : String) : Option Smell :=
  all.find? (·.name == name)

/-- The stable rule id. -/
def id : Smell → String
  | unknownTag => "DOC001"
  | missingEndTag => "DOC002"
  | missingDocumentation => "DOC100"
  | missingSummary => "DOC200"
  | emptySummary => "DOC210"
  | paramMissingName => "DOC300"
  | missingParamTag => "DOC310"
  | emptyParamDescription => "DOC320"
  | unknownParamTag => "DOC330"
  | paramRefNotEmpty => "DOC340"
  | duplicateParamTag => "DOC350"
  | typeParamMissingName => "DOC400"
  | missingTypeParamTag => "DOC410"
  | emptyTypeParamDescription => "DOC420"
  | unknownTypeParamTag => "DOC430"
  | typeParamRefNotEmpty => "DOC440"
  | duplicateTypeParamTag => "DOC450"
  | missingReturns => "DOC500"
  | emptyReturns => "DOC510"
  | returnsOnVoidMember => "DOC520"
  | duplicateReturnsTag => "DOC530"
  | exceptionMissingCref => "DOC600"
  | emptyExceptionDescription => "DOC610"
  | duplicateExceptionTag => "DOC620"
  | rethrowCannotInferException => "DOC660"
  | invalidTagOnMember => "DOC700"

/-- The message with numbered holes in braces for the details. -/
def template : Smell → String
  | unknownTag => "Unknown XML documentation tag <\x7b0\x7d>."
  | missingEndTag => "<\x7b0\x7d> is not closed."
  | missingDocumentation => "Missing XML documentation for \x7b0\x7d '\x7b1\x7d'."
  | missingSummary => "Missing <summary> in XML documentation."
  | emptySummary => "<summary> is empty."
  | paramMissingName => "<param> is missing the name attribute."
  | missingParamTag => "Missing <param> documentation for parameter '\x7b0\x7d'."
  | emptyParamDescription => "<param> description for '\x7b0\x7d' is empty."
  | unknownParamTag => "<param> references unknown parameter '\x7b0\x7d'."
  | paramRefNotEmpty => "<paramref> must be self-closing and empty."
  | duplicateParamTag => "<param> duplicated for parameter '\x7b0\x7d'."
  | typeParamMissingName => "<typeparam> is missing the name attribute."
  | missingTypeParamTag => "Missing <typeparam> documentation for type parameter '\x7b0\x7d'."
  | emptyTypeParamDescription => "<typeparam> description for '\x7b0\x7d' is empty."
  | unknownTypeParamTag => "<typeparam> references unknown type parameter '\x7b0\x7d'."
  | typeParamRefNotEmpty => "<typeparamref> must be self-closing and empty."
  | duplicateTypeParamTag => "<typeparam> duplicated for type parameter '\x7b0\x7d'."
  | missingReturns => "Missing <returns> documentation."
  | emptyReturns => "<returns> is empty."
  | returnsOnVoidMember => "<returns> is not allowed on a member that returns void."
  | duplicateReturnsTag => "<returns> is duplicated."
  | exceptionMissingCref => "<exception> is missing the cref attribute."
  | emptyExceptionDescription => "<exception> description for '\x7b0\x7d' is empty."
  | duplicateExceptionTag => "<exception> duplicated for '\x7b0\x7d'."
  | rethrowCannotInferException =>
    "Rethrow ('throw;') cannot be mapped to a documented exception type; " ++
      "review the <exception> tags manually."
  | invalidTagOnMember => "<\x7b0\x7d> is not valid on this \x7b1\x7d."

/-- The text that marks the place of detail `index` in a template. -/
def hole (index : Nat) : List Char :=
  '\x7b' :: Nat.toDigits 10 index ++ ['\x7d']

/-- The text with the details filled in, the first of them into the hole numbered `index`. -/
def fillFrom : (index : Nat) → (details : List String) → List Char → List Char
  | _, [], text => text
  | index, detail :: details, text =>
    fillFrom (index + 1) details (Text.replaceAll (hole index) detail.toList text)

/-- The message for the given details. Holes without a detail stay as they are. -/
def message (smell : Smell) (details : List String) : String :=
  String.ofList (fillFrom 0 details smell.template.toList)

end Smell
end DocAudit

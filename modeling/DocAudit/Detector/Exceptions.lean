import DocAudit.Comment.Content
import DocAudit.Declaration.Basic
import DocAudit.Finding.Verdict

/-!
# Exceptions

Each exception is documented once and with content; two targets are the same when they are written
the same. Which exceptions a body throws is not looked at, but a bare `throw` has a type that no
comment can be checked against, so the first one is pointed out.
-/

namespace DocAudit

namespace Rethrow

open Code

/-- The kinds of functions inside a body, whose exceptions are their own affair. -/
def barrierKinds : List String :=
  ["lambda_expression", "anonymous_method_expression", "local_function_statement"]

/-- The node is a throw statement without an operand. -/
def isBare (node : Node) : Bool :=
  node.kind == "throw_statement" &&
    !node.children.any fun child => child.label.isNamed && !child.isComment

/-- The node is a function of its own. -/
def isBarrier (node : Node) : Bool :=
  barrierKinds.contains node.kind

mutual

/-- The first bare throw at or below a node, functions inside it left out. -/
def find? : Node → Option Node
  | .mk label children =>
    if isBare (.mk label children) then some (.mk label children)
    else if isBarrier (.mk label children) then none
    else findAmong? children

/-- The first bare throw at or below the nodes of a list. -/
def findAmong? : List Node → Option Node
  | [] => none
  | node :: nodes => (find? node).or (findAmong? nodes)

end

end Rethrow

namespace Declaration

/-- The tag that documents an exception. -/
def exceptionTag : String := "exception"

/-- The elements whose key an earlier element has, given the keys of the elements before them. -/
def repeated : (earlier : List String) → List KeyedElement → List KeyedElement
  | _, [] => []
  | earlier, tag :: tags =>
    (if earlier.contains tag.key then [tag] else []) ++ repeated (earlier ++ [tag.key]) tags

/-- The verdicts on the documented exceptions: the repeated ones, then the empty ones. -/
def exceptionTagVerdicts (doc : DocComment) : List Verdict :=
  let tags := doc.targetedElements exceptionTag
  (repeated [] tags).map (fun tag => .ofElement doc tag.element .duplicateExceptionTag [tag.key]) ++
    (tags.filter fun tag => !tag.element.isMeaningful).map fun tag =>
      .ofElement doc tag.element .emptyExceptionDescription [tag.key]

/-- The verdict on a bare throw in the body. -/
def rethrowVerdict? (source : List Char) (declaration : Declaration) : Option Verdict :=
  (declaration.form.body?.bind Rethrow.find?).map fun rethrow =>
    { smell := .rethrowCannotInferException, tagName := exceptionTag, position := rethrow.start,
      excerpt := rethrow.text source, details := [declaration.name] }

/-- The verdicts on the exceptions of a declaration. -/
def exceptionVerdicts (source : List Char) (declaration : Declaration) : List Verdict :=
  (declaration.doc.map exceptionTagVerdicts).getD [] ++
    (rethrowVerdict? source declaration).toList

end Declaration
end DocAudit

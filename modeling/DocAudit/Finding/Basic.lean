import DocAudit.Finding.Verdict
import DocAudit.Text.Location
import DocAudit.Text.Snippet

/-!
# Findings

A finding is a verdict as a report shows it: in a file, at a line and a column, with a snippet of one
line. Findings are ordered by file, line, column and rule; findings equal in all four keep their
order.
-/

namespace DocAudit

/-- A reported defect. -/
structure Finding where
  /-- The smell. -/
  smell : Smell
  /-- The name of the tag it is about, empty when it is about a whole declaration. -/
  tagName : String
  /-- The path of the file. -/
  path : String
  /-- The place in the file. -/
  location : Text.Location
  /-- The text that shows the smell, on one line and of bounded length. -/
  snippet : String
  /-- The details of the message. -/
  details : List String
deriving DecidableEq, Repr

namespace Finding

/-- The finding of a verdict on the text of a file. -/
def ofVerdict (path : String) (source : List Char) (verdict : Verdict) : Finding :=
  { smell := verdict.smell
    tagName := verdict.tagName
    path
    location := Text.locate source verdict.position
    snippet := String.ofList (Text.snippet verdict.excerpt)
    details := verdict.details }

/-- The rule the finding falls under. -/
def ruleId (finding : Finding) : String :=
  finding.smell.id

/-- The message of the finding. -/
def message (finding : Finding) : String :=
  finding.smell.message finding.details

/-- The finding on one line: `path(line,column): rule message`. -/
def display (finding : Finding) : String :=
  finding.path ++ "(" ++ toString finding.location.line ++ "," ++
    toString finding.location.column ++ "): " ++ finding.ruleId ++ " " ++ finding.message

/-- The order of reports: by path, line, column and rule. -/
def order (a b : Finding) : Ordering :=
  ((compare a.path b.path).then (compare a.location.line b.location.line)).then
    ((compare a.location.column b.location.column).then (compare a.ruleId b.ruleId))

/-- The findings in the order of reports. -/
def sort (findings : List Finding) : List Finding :=
  findings.mergeSort fun a b => (order a b).isLE

end Finding
end DocAudit

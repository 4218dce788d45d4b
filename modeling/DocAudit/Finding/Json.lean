import DocAudit.Finding.Basic
import DocAudit.Json.Write

/-!
# Findings in JSON

A report in JSON is an array with one object for each finding.
-/

namespace DocAudit.Finding

open Json

/-- The object of a finding. -/
def toJson (finding : Finding) : Value :=
  .ofMembers
    [("smell", .ofString finding.smell.name),
      ("rule_id", .ofString finding.ruleId),
      ("tag_name", .ofString finding.tagName),
      ("file_path", .ofString finding.path),
      ("line", .ofNat finding.location.line),
      ("column", .ofNat finding.location.column),
      ("message", .ofString finding.message),
      ("snippet", .ofString finding.snippet),
      ("extra_context", .array (finding.details.map .ofString))]

/-- The array of a list of findings. -/
def report (findings : List Finding) : Value :=
  .array (findings.map toJson)

end DocAudit.Finding

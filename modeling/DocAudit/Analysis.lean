import DocAudit.Declaration.Collect
import DocAudit.Detector.Exceptions
import DocAudit.Detector.MemberTags
import DocAudit.Detector.NamedTags
import DocAudit.Detector.Returns
import DocAudit.Detector.Summary
import DocAudit.Detector.WellFormed
import DocAudit.Finding.Basic

/-!
# Analysis

The detectors are run over a source file one after the other. None looks at the verdicts of another,
and what one reports is never reported by another under the same rule.
-/

namespace DocAudit

/-- A group of checks. -/
inductive Detector
  /-- The markup of every doc comment. -/
  | wellFormed
  /-- Documentation and summaries. -/
  | basic
  /-- Parameter tags. -/
  | param
  /-- Type parameter tags. -/
  | typeParam
  /-- Return documentation. -/
  | returns
  /-- Exception documentation and bare throws. -/
  | exception
  /-- Tags for the kind of member. -/
  | memberTags
deriving DecidableEq, Repr

namespace Detector

/-- The detectors in the order in which they run. -/
def all : List Detector :=
  [wellFormed, basic, param, typeParam, returns, exception, memberTags]

/-- The name of a detector. -/
def name : Detector → String
  | wellFormed => "well-formed"
  | basic => "basic"
  | param => "param"
  | typeParam => "typeparam"
  | returns => "returns"
  | exception => "exception"
  | memberTags => "member-tags"

/-- The detector of a name. -/
def ofName? (name : String) : Option Detector :=
  all.find? (·.name == name)

open Code

/-- The verdicts of a detector on a source file. -/
def verdicts (options : Options) (file : SourceFile) : Detector → List Verdict
  | wellFormed => file.docComments.flatMap (·.markupVerdicts)
  | basic => file.declarations.flatMap (·.documentationVerdicts options file.text)
  | param => file.declarations.flatMap (·.paramVerdicts)
  | typeParam => file.declarations.flatMap (·.typeParamVerdicts)
  | returns => file.declarations.flatMap (·.returnsVerdicts file.text)
  | exception => file.declarations.flatMap (·.exceptionVerdicts file.text)
  | memberTags => file.declarations.flatMap (·.memberTagVerdicts)

/-- The doc comments a detector reads. -/
def docsRead (file : SourceFile) : Detector → List DocComment
  | wellFormed => file.docComments
  | _ => file.declarations.filterMap (·.doc)

/-- The doc comments the detector reads can be read. -/
def canRead (file : SourceFile) (detector : Detector) : Bool :=
  (detector.docsRead file).all (·.isReadable)

/-- The findings of a detector on a source file. -/
def findings (options : Options) (path : String) (file : SourceFile) (detector : Detector) :
    List Finding :=
  (detector.verdicts options file).map (Finding.ofVerdict path file.text)

end Detector

namespace Code.SourceFile

/-- The findings of all detectors, in the order in which the detectors run. -/
def findings (options : Options) (path : String) (file : SourceFile) : List Finding :=
  Detector.all.flatMap (·.findings options path file)

/-- Every doc comment of the file can be read. -/
def isReadable (file : SourceFile) : Bool :=
  Detector.all.all (·.canRead file)

end Code.SourceFile
end DocAudit

import DocAudit.Analysis
import DocAudit.Text.Quoted

/-!
# Descriptions

How the parts of the program present themselves where someone looks into them.
-/

namespace DocAudit

/-- The parser of sources. -/
def parserDescription : String :=
  "CsParser \x7b parser: " ++ Text.quoted "<Parser>" ++ " \x7d"

/-- The detectors in the order in which they run. -/
def analyzerDescription : String :=
  "XmlDocAnalyzer \x7b detectors: [" ++
    ", ".intercalate (Detector.all.map fun detector => Text.quoted detector.name) ++ "] \x7d"

/-- The detector of documentation and summaries with its options. -/
def basicDescription (options : Options) : String :=
  "BasicDetector \x7b options: " ++ options.description ++ " \x7d"

end DocAudit

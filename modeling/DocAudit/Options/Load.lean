import DocAudit.Error
import DocAudit.Files.System
import DocAudit.Options.Json
import DocAudit.Options.Yaml

/-!
# Option files

The extension of an option file tells its format. A file of another extension is refused before it is
looked at.
-/

namespace DocAudit.Options

/-- The format of an option file. -/
inductive Format
  | json
  | yaml
deriving DecidableEq, Repr

/-- The format of a path by its extension, in whatever case. -/
def formatOf? (path : String) : Option Format :=
  match (Path.extension? path).map Path.lowercase with
  | some "json" => some .json
  | some "yaml" | some "yml" => some .yaml
  | _ => none

/-- The options of a text. -/
def parse (format : Format) (text : String) : Except AuditError Options :=
  match format with
  | .json =>
    match ofJson? text.toList with
    | some options => .ok options
    | none => .error (.json "Failed to parse options JSON")
  | .yaml =>
    match ofYaml? text.toList with
    | some options => .ok options
    | none => .error (.yaml "Failed to parse options YAML")

/-- The options of an option file. -/
def load (files : FileSystem) (path : String) : Except AuditError Options :=
  match formatOf? path with
  | none => .error (.unsupportedOptionsFile path)
  | some format =>
    match files.read path with
    | .error cause => .error (.io "Failed to read options file" cause)
    | .ok text => parse format text

end DocAudit.Options

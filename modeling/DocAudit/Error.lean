import DocAudit.Files.Tree
import DocAudit.Text.Quoted

/-!
# Errors

What can go wrong around the checks: reading files, understanding options, and getting the tree of a
source. Bad documentation is no error, it is what is looked for.
-/

namespace DocAudit

/-- An error around the checks. -/
inductive AuditError
  /-- A file could not be used. -/
  | io (context : String) (cause : FileError)
  /-- A text is not the JSON it should be. -/
  | json (context : String)
  /-- A text is not the YAML it should be. -/
  | yaml (context : String)
  /-- An options file has an extension that tells no format. -/
  | unsupportedOptionsFile (path : String)
  /-- There is no tree for a source file. -/
  | parse (path reason : String)
  /-- Trees cannot be made at all. -/
  | language (reason : String)
deriving DecidableEq, Repr

namespace AuditError

/-- An error of a file without further context. -/
def ofFileError (cause : FileError) : AuditError :=
  .io "IO operation failed" cause

/-- An error of a JSON text without further context. -/
def jsonFailure : AuditError :=
  .json "JSON operation failed"

/-- An error of a YAML text without further context. -/
def yamlFailure : AuditError :=
  .yaml "YAML operation failed"

/-- The error of a source file that no tree could be made of. -/
def noTree (path : String) : AuditError :=
  .parse path "tree-sitter returned no tree"

/-- The error in words, without its cause. -/
def message : AuditError → String
  | io context _ => "IO error: " ++ context
  | json context => "JSON error: " ++ context
  | yaml context => "YAML error: " ++ context
  | unsupportedOptionsFile path =>
    "Unsupported options file " ++ Text.quoted path ++ ", expected .json, .yaml or .yml"
  | parse path reason => "Parse error in file " ++ Text.quoted path ++ ": " ++ reason
  | language reason => "Failed to set up tree-sitter language: " ++ reason

/-- Another error stands behind this one. -/
def hasCause : AuditError → Bool
  | io _ _ | json _ | yaml _ => true
  | unsupportedOptionsFile _ | parse _ _ | language _ => false

/-- The error in words, with the cause where it is known. -/
def fullMessage (error : AuditError) : String :=
  match error with
  | io _ cause => error.message ++ ": " ++ cause.message
  | _ => error.message

end AuditError
end DocAudit

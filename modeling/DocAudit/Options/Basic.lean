/-!
# Options

What a run may be told about the checks. Each option that is on makes the checks stricter.
-/

namespace DocAudit

/-- The options of the checks. -/
structure Options where
  /-- Enumeration members need documentation and a summary. -/
  checkEnumMembers : Bool := true
  /-- Namespaces need documentation and a summary. -/
  requireDocumentationForNamespaces : Bool := false
  /-- A documented field or event field needs a summary. -/
  requireSummaryForFields : Bool := true
deriving DecidableEq, Repr

namespace Options

/-- An option by its name in option files. -/
inductive Key
  | checkEnumMembers
  | requireDocumentationForNamespaces
  | requireSummaryForFields
deriving DecidableEq, Repr

/-- The keys in the order of the fields. -/
def Key.all : List Key :=
  [checkEnumMembers, requireDocumentationForNamespaces, requireSummaryForFields]

/-- The spelling of a key in option files. -/
def Key.name : Key → String
  | checkEnumMembers => "CheckEnumMembers"
  | requireDocumentationForNamespaces => "RequireDocumentationForNamespaces"
  | requireSummaryForFields => "RequireSummaryForFields"

/-- The key of a spelling. -/
def Key.ofName? (name : String) : Option Key :=
  all.find? (·.name == name)

/-- The value of an option. -/
def get (options : Options) : Key → Bool
  | .checkEnumMembers => options.checkEnumMembers
  | .requireDocumentationForNamespaces => options.requireDocumentationForNamespaces
  | .requireSummaryForFields => options.requireSummaryForFields

/-- The options with one of them changed. -/
def set (options : Options) (key : Key) (value : Bool) : Options :=
  match key with
  | .checkEnumMembers => { options with checkEnumMembers := value }
  | .requireDocumentationForNamespaces =>
    { options with requireDocumentationForNamespaces := value }
  | .requireSummaryForFields => { options with requireSummaryForFields := value }

/-- The options given by a list of entries, the others at their defaults. The same option twice is
refused. -/
def ofEntries? (entries : List (Key × Bool)) : Option Options :=
  if (entries.map (·.1)).Nodup then
    some (entries.foldl (fun options (key, value) => options.set key value) {})
  else none

/-- The options as a log shows them. -/
def description (options : Options) : String :=
  "XmlDocOptions \x7b check_enum_members: " ++ toString options.checkEnumMembers ++
    ", require_documentation_for_namespaces: " ++
    toString options.requireDocumentationForNamespaces ++
    ", require_summary_for_fields: " ++ toString options.requireSummaryForFields ++ " \x7d"

end Options
end DocAudit

import DocAudit.Options.Basic
import DocAudit.Yaml.Node

/-!
# Options in YAML

An option file in YAML holds a mapping whose entries are options, all of them truth values; entries of
other names may hold anything. Nothing at all is a mapping without entries.
-/

namespace DocAudit.Options

open Yaml

/-- The tag of truth values. -/
def boolTag : List Char := "tag:yaml.org,2002:bool".toList

/-- The truth value of a word. -/
def flagOfWord? (word : String) : Option Bool :=
  match word with
  | "true" | "True" | "TRUE" => some true
  | "false" | "False" | "FALSE" => some false
  | _ => none

/-- The truth value of a scalar: it is written plainly, or as a block with the tag of truth values. -/
def scalarFlag? (scalar : Scalar) : Option Bool :=
  if scalar.style == .plain || (scalar.style == .literal && scalar.tag == some boolTag) then
    flagOfWord? (String.ofList scalar.text)
  else none

/-- The scalar of a node: itself, or the one an alias stands for. -/
def scalarOf? (document : Document) : Node → Option Scalar
  | .scalar scalar => some scalar
  | .alias number => ((document.anchored.find? (·.1 == number)).map (·.2)).join
  | _ => none

/-- The entry of a mapping: none for an entry that is no option. Fails when a key is no scalar, or the
value of an option no truth value. -/
def entryOption? (document : Document) (entry : Node × Node) : Option (Option (Key × Bool)) := do
  let key ← scalarOf? document entry.1
  match Key.ofName? (String.ofList key.text) with
  | none => some none
  | some key =>
    let value ← scalarOf? document entry.2
    let flag ← scalarFlag? value
    return some (key, flag)

/-- The options of a document. -/
def ofDocument? (document : Document) : Option Options :=
  match document.root with
  | .mapping entries => do
    let entries ← entries.mapM (entryOption? document)
    ofEntries? (entries.filterMap id)
  | .scalar scalar => if scalar.style = .plain ∧ scalar.text = [] then some {} else none
  | _ => none

/-- The options of a YAML text. -/
def ofYaml? (text : List Char) : Option Options := do
  match ← document? text with
  | some document => ofDocument? document
  | none => some {}

end DocAudit.Options

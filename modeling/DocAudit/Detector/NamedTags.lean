import DocAudit.Comment.Content
import DocAudit.Declaration.Basic
import DocAudit.Finding.Verdict

/-!
# Declared names and named tags

Parameters and type parameters are documented by tags that give their names. The tags are judged in
document order: one that names nothing declared is unknown, one whose name was given before is a
duplicate whatever it says, and the first for a name must have content. The declared names that no tag
gives are then missing, in the order of their declaration.
-/

namespace DocAudit

namespace NamedTags

/-- The smells by which one family of named tags is reported. -/
structure Smells where
  /-- A declared name without a tag. -/
  missing : Smell
  /-- A tag without content. -/
  empty : Smell
  /-- A tag for a name that is not declared. -/
  unknown : Smell
  /-- A further tag for a name. -/
  duplicate : Smell
deriving DecidableEq, Repr

/-- The smells of parameters. -/
def paramSmells : Smells :=
  ⟨.missingParamTag, .emptyParamDescription, .unknownParamTag, .duplicateParamTag⟩

/-- The smells of type parameters. -/
def typeParamSmells : Smells :=
  ⟨.missingTypeParamTag, .emptyTypeParamDescription, .unknownTypeParamTag, .duplicateTypeParamTag⟩

/-- What is wrong with a tag, given the names of the tags before it. -/
def fault? (smells : Smells) (declared earlier : List String) (tag : KeyedElement) :
    Option Smell :=
  -- The order decides: a tag is reported for the first thing that is wrong with it.
  if !declared.contains tag.key then some smells.unknown
  else if earlier.contains tag.key then some smells.duplicate
  else if !tag.element.isMeaningful then some smells.empty
  else none

/-- The tags that are at fault, each with its smell, given the names of the tags before them. -/
def faults (smells : Smells) (declared : List String) :
    (earlier : List String) → List KeyedElement → List (KeyedElement × Smell)
  | _, [] => []
  | earlier, tag :: tags =>
    -- A faulty tag counts as an earlier one all the same.
    ((fault? smells declared earlier tag).map fun smell => (tag, smell)).toList ++
      faults smells declared (earlier ++ [tag.key]) tags

/-- The declared names that no tag gives. -/
def missingNames (declared : List String) (tags : List KeyedElement) : List String :=
  declared.filter fun name => !(tags.map (·.key)).contains name

/-- The verdicts on the tags of one name in a doc comment, given the declared names and the place
where each would be reported missing. -/
def reconcile (smells : Smells) (tagName : String) (doc : DocComment) (declared : List String)
    (anchorOf : String → Nat) : List Verdict :=
  let tags := doc.namedElements tagName
  ((faults smells declared [] tags).map fun (tag, smell) =>
      .ofElement doc tag.element smell [tag.key]) ++
    (missingNames declared tags).map fun name =>
      { smell := smells.missing, tagName, position := anchorOf name, excerpt := name.toList,
        details := [name] }

/-- Each declared name once, at its first place. -/
def unique : List DeclaredName → List DeclaredName
  | [] => []
  | name :: names => name :: (unique names).filter (·.name != name.name)

/-- The place of the first declared name of the given spelling, or else `anchor`. -/
def positionOf (anchor : Nat) (declared : List DeclaredName) (name : String) : Nat :=
  ((declared.find? (·.name == name)).map (·.position)).getD anchor

/-- The verdicts on the named tags of a declaration that declares the given names. A declaration
without such names or without a doc comment has none. -/
def check (smells : Smells) (tagName : String) (declared? : Option (List DeclaredName))
    (declaration : Declaration) : List Verdict :=
  match declared?, declaration.doc with
  | some (name :: names), some doc =>
    let declared := unique (name :: names)
    reconcile smells tagName doc (declared.map (·.name)) (positionOf declaration.anchor declared)
  | _, _ => []

end NamedTags

/-- The verdicts on the parameter tags of a declaration. -/
def Declaration.paramVerdicts (declaration : Declaration) : List Verdict :=
  NamedTags.check NamedTags.paramSmells "param" declaration.form.parameters? declaration

/-- The verdicts on the type parameter tags of a declaration. -/
def Declaration.typeParamVerdicts (declaration : Declaration) : List Verdict :=
  NamedTags.check NamedTags.typeParamSmells "typeparam" declaration.form.typeParameters? declaration

end DocAudit

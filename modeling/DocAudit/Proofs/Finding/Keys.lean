import DocAudit.Proofs.Comment.Content
import DocAudit.Proofs.Detector.Reconciliation
import DocAudit.Proofs.Finding.Strictness
import DocAudit.Proofs.Markup.Preorder

/-!
# Tags with and without a key

A tag for a parameter, a type parameter or an exception has to say which one it is about. The tags of a
comment that do are those the checks of declarations go through, and the others are those the check of
the markup reports: each tag is the business of one side only, and the checks of declarations come to
the same result when the others are taken away.

* `KeyedKind`: the kinds of tags that need a key;
* `DocComment.Divides`: the tags of one kind in a doc comment;
* `KeyedKind.findingsAmong`: what a check reports of a declaration when it is given these elements;
* `Code.SourceFile.dividesTags`: the tags of a file.
-/

namespace DocAudit

open Markup

/-- A kind of tags that need a key. -/
inductive KeyedKind
  /-- Tags that give the name of a parameter or a type parameter. -/
  | named (family : NamedTags.Family)
  /-- Tags that refer to an exception. -/
  | exception
deriving DecidableEq

namespace KeyedKind

/-- The name of the tags. -/
def tagName : KeyedKind → String
  | named family => family.tagName
  | exception => "exception"

/-- The key of a tag. -/
def key? : KeyedKind → Tag → Option String
  | named _ => Tag.givenName?
  | exception => Tag.target?

/-- The smell of a tag without a key. -/
def smell : KeyedKind → Smell
  | named .params => .paramMissingName
  | named .typeParams => .typeParamMissingName
  | exception => .exceptionMissingCref

/-- The check of declarations that goes through the tags. -/
def detector : KeyedKind → Detector
  | named family => family.detector
  | exception => .exception

/-- The tags of a doc comment that have a key. -/
def keyed (doc : DocComment) : KeyedKind → List KeyedElement
  | named family => doc.namedElements family.tagName
  | exception => doc.targetedElements "exception"

/-- The tags of a doc comment that have none. -/
def unkeyed (doc : DocComment) (kind : KeyedKind) : List Element :=
  (doc.elementsNamed kind.tagName).filter fun element => (kind.key? element.tag).isNone

theorem keyed_eq (doc : DocComment) (kind : KeyedKind) :
    kind.keyed doc = doc.keyedBy kind.key? kind.tagName := by
  cases kind <;> rfl

/-- Tags without a key are reported by the check of the markup. -/
theorem detector_smell (kind : KeyedKind) : kind.smell.detector = .wellFormed := by
  rcases kind with (_ | _) | _ <;> rfl

end KeyedKind

/-! ## The tags of one doc comment -/

namespace DocComment

variable {doc : DocComment} {kind : KeyedKind}

/-- The fault of an element is that it has no key exactly if it needs one and has none. -/
theorem formFault?_eq_smell_iff {element : Element} :
    formFault? element = some kind.smell ↔
      element.tag.name = kind.tagName ∧ kind.key? element.tag = none := by
  unfold formFault?
  split <;> rcases kind with (_ | _) | _ <;>
    simp_all [KeyedKind.smell, KeyedKind.tagName, KeyedKind.key?, NamedTags.Family.tagName]

/-- Of its key, the check of an element reports that it is missing, if it is, and nothing else. -/
theorem filter_elementVerdicts_smell (element : Element) :
    (doc.elementVerdicts element).filter (·.smell == kind.smell) =
      if element.tag.name = kind.tagName ∧ kind.key? element.tag = none then
        [.ofElement doc element kind.smell []]
      else [] := by
  have hsmell : Smell.unknownTag ≠ kind.smell ∧ Smell.missingEndTag ≠ kind.smell := by
    rcases kind with (_ | _) | _ <;> decide
  have hform : (((formFault? element).map fun smell =>
      Verdict.ofElement doc element smell []).toList.filter (·.smell == kind.smell)) =
        if formFault? element = some kind.smell then
          [Verdict.ofElement doc element kind.smell []]
        else [] := by
    cases formFault? element with
    | none => rfl
    | some smell => by_cases hsmell : smell = kind.smell <;> simp [Verdict.ofElement, hsmell]
  -- The name of an element and its end are other matters.
  have hothers : ((if Vocabulary.isKnown element.tag.name then []
        else [Verdict.ofElement doc element .unknownTag [element.tag.name]]) ++
      (if isUnclosed element then
        [Verdict.ofElement doc element .missingEndTag [element.tag.name]]
      else [])).filter (·.smell == kind.smell) = [] := by
    rw [List.filter_eq_nil_iff]
    intro verdict hverdict
    rcases List.mem_append.1 hverdict with h | h <;> split at h <;>
      simp_all [Verdict.ofElement]
  simp only [elementVerdicts]
  rw [List.filter_append, hothers, hform, List.nil_append]
  simp only [formFault?_eq_smell_iff]

/-- The check of the markup reports the tags without a key, in document order. -/
theorem filter_markupVerdicts_smell (doc : DocComment) (kind : KeyedKind) :
    doc.markupVerdicts.filter (·.smell == kind.smell) =
      (kind.unkeyed doc).map fun element => .ofElement doc element kind.smell [] := by
  have hraw : doc.rawVerdicts.filter (·.smell == kind.smell) = [] := by
    rw [List.filter_eq_nil_iff]
    intro verdict hverdict
    obtain ⟨tag, -, -, rfl⟩ := exists_tag_of_mem_rawVerdicts hverdict
    rcases kind with (_ | _) | _ <;> exact fun hsmell => by cases beq_iff_eq.1 hsmell
  rw [markupVerdicts, List.filter_append, hraw, List.append_nil, List.filter_flatMap,
    KeyedKind.unkeyed, elementsNamed, List.filter_filter]
  simp only [filter_elementVerdicts_smell]
  induction doc.elements with
  | nil => rfl
  | cons element elements ih =>
    rw [List.flatMap_cons, ih]
    by_cases hname : element.tag.name = kind.tagName <;>
      by_cases hkey : kind.key? element.tag = none <;> simp [hname, hkey]

/-- The tags of one kind in a doc comment are divided between the check of the markup and a check of
declarations. -/
structure Divides (doc : DocComment) (kind : KeyedKind) : Prop where
  /-- Such a tag is reported for having no key exactly if it is not among those that have one. -/
  reported_iff : ∀ element ∈ doc.elements, element.tag.name = kind.tagName →
    ((∃ verdict ∈ doc.elementVerdicts element, verdict.smell = kind.smell) ↔
      element ∉ (kind.keyed doc).map (·.element))
  /-- Each tag is either among those with a key or among those without, in the order of both. -/
  isInterleaving : IsInterleaving [(kind.keyed doc).map (·.element), kind.unkeyed doc]
    (doc.elementsNamed kind.tagName)
  /-- For having no key the check of the markup reports those without, each of them once. -/
  filter_markupVerdicts : doc.markupVerdicts.filter (·.smell == kind.smell) =
    (kind.unkeyed doc).map fun element => .ofElement doc element kind.smell []

theorem map_element_keyed (doc : DocComment) (kind : KeyedKind) :
    (kind.keyed doc).map (·.element) =
      (doc.elementsNamed kind.tagName).filter fun element => (kind.key? element.tag).isSome := by
  rw [KeyedKind.keyed_eq, map_element_keyedBy]

theorem divides (doc : DocComment) (kind : KeyedKind) : doc.Divides kind where
  reported_iff := by
    intro element helement hname
    have hreported : (∃ verdict ∈ doc.elementVerdicts element, verdict.smell = kind.smell) ↔
        (doc.elementVerdicts element).filter (·.smell == kind.smell) ≠ [] := by
      simp [List.filter_eq_nil_iff]
    have hmem : element ∈ doc.elementsNamed kind.tagName :=
      List.mem_filter.2 ⟨helement, beq_iff_eq.2 hname⟩
    rw [hreported, filter_elementVerdicts_smell, map_element_keyed, List.mem_filter]
    cases hkey : kind.key? element.tag <;> simp [hname, hmem]
  isInterleaving := by
    have h := IsInterleaving.filter_not (doc.elementsNamed kind.tagName) fun element =>
      (kind.key? element.tag).isNone
    simp only [Option.not_isNone] at h
    rw [map_element_keyed]
    exact h
  filter_markupVerdicts := doc.filter_markupVerdicts_smell kind

end DocComment

/-! ## Checks that are given the elements -/

/-- A tag with the same key on a changed element. -/
def KeyedElement.mapElement (change : Element → Element) (keyed : KeyedElement) : KeyedElement :=
  ⟨keyed.key, change keyed.element⟩

@[simp]
theorem KeyedElement.key_mapElement (change : Element → Element) (keyed : KeyedElement) :
    (keyed.mapElement change).key = keyed.key := rfl

@[simp]
theorem KeyedElement.element_mapElement (change : Element → Element) (keyed : KeyedElement) :
    (keyed.mapElement change).element = change keyed.element := rfl

section Change

variable {change : Element → Element}

/-- What is wrong with tags does not depend on more than their keys and whether they have content. -/
theorem NamedTags.faults_map
    (hmeaningful : ∀ element, (change element).isMeaningful = element.isMeaningful)
    (smells : Smells) (declared earlier : List String) (tags : List KeyedElement) :
    faults smells declared earlier (tags.map (·.mapElement change)) =
      (faults smells declared earlier tags).map fun (tag, smell) =>
        (tag.mapElement change, smell) := by
  induction tags generalizing earlier with
  | nil => rfl
  | cons tag tags ih =>
    have hfault : fault? smells declared earlier (tag.mapElement change) =
        fault? smells declared earlier tag := by
      simp only [fault?, KeyedElement.key_mapElement, KeyedElement.element_mapElement, hmeaningful]
    rw [List.map_cons, faults, faults, hfault, KeyedElement.key_mapElement, ih, List.map_append]
    cases fault? smells declared earlier tag <;> rfl

theorem Declaration.repeated_map (change : Element → Element) (earlier : List String)
    (tags : List KeyedElement) :
    repeated earlier (tags.map (·.mapElement change)) =
      (repeated earlier tags).map (·.mapElement change) := by
  induction tags generalizing earlier with
  | nil => rfl
  | cons tag tags ih =>
    rw [List.map_cons, repeated, repeated, KeyedElement.key_mapElement, ih, List.map_append]
    split <;> rfl

end Change

namespace KeyedKind

/-- The tags with a key among some elements. -/
def keyedAmong (elements : List Element) (kind : KeyedKind) : List KeyedElement :=
  (elements.filter (·.tag.name == kind.tagName)).filterMap fun element =>
    (kind.key? element.tag).map fun key => ⟨key, element⟩

/-- What a check says of a declaration whose doc comment has the given tags with a key. -/
def verdictsOnTags (source : List Char) (declaration : Declaration) (doc : DocComment)
    (tags : List KeyedElement) : KeyedKind → List Verdict
  | named family =>
    match family.declared? declaration.form with
    | some (first :: later) =>
      let declared := NamedTags.unique (first :: later)
      let names := declared.map (·.name)
      ((NamedTags.faults family.smells names [] tags).map fun (tag, smell) =>
          .ofElement doc tag.element smell [tag.key]) ++
        (NamedTags.missingNames names tags).map fun name =>
          { smell := family.smells.missing, tagName := family.tagName,
            position := NamedTags.positionOf declaration.anchor declared name,
            excerpt := name.toList, details := [name] }
    | _ => []
  | exception =>
    (Declaration.repeated [] tags).map
        (fun tag => .ofElement doc tag.element .duplicateExceptionTag [tag.key]) ++
      ((tags.filter fun tag => !tag.element.isMeaningful).map fun tag =>
        .ofElement doc tag.element .emptyExceptionDescription [tag.key]) ++
      (Declaration.rethrowVerdict? source declaration).toList

/-- What a check reports of a declaration when it is given these elements of its doc comment. -/
def findingsAmong (path : String) (source : List Char) (declaration : Declaration)
    (doc : DocComment) (elements : List Element) (kind : KeyedKind) : List Finding :=
  (kind.verdictsOnTags source declaration doc (kind.keyedAmong elements)).map
    (Finding.ofVerdict path source)

variable {declaration : Declaration} {doc : DocComment}

/-- With all elements of the comment the check is the one that the detector makes. -/
theorem findingsAmong_elements (options : Options) (path : String) (source : List Char)
    (hdoc : declaration.doc = some doc) (kind : KeyedKind) :
    kind.findingsAmong path source declaration doc doc.elements =
      kind.detector.contribution options path source declaration := by
  have hverdicts : kind.verdictsOnTags source declaration doc (kind.keyedAmong doc.elements) =
      kind.detector.verdictsOn options source declaration := by
    cases kind with
    | named family =>
      rw [detector, NamedTags.Family.verdictsOn_eq_check, verdictsOnTags]
      cases family.declared? declaration.form with
      | none => rfl
      | some declared =>
        cases declared with
        | nil => rfl
        | cons first later =>
          simp only [NamedTags.check, hdoc]
          rfl
    | exception =>
      rw [detector, Detector.verdictsOn, Declaration.exceptionVerdicts, hdoc]
      rfl
  rw [findingsAmong, hverdicts, Detector.contribution]

/-- Of the elements, a check looks at their tags and asks whether they have content. -/
theorem verdictsOnTags_map {change : Element → Element}
    (htag : ∀ element, (change element).tag = element.tag)
    (hmeaningful : ∀ element, (change element).isMeaningful = element.isMeaningful)
    (source : List Char) (tags : List KeyedElement) (kind : KeyedKind) :
    kind.verdictsOnTags source declaration doc (tags.map (·.mapElement change)) =
      kind.verdictsOnTags source declaration doc tags := by
  have hverdict (element : Element) (smell : Smell) (details : List String) :
      Verdict.ofElement doc (change element) smell details =
        .ofElement doc element smell details := by
    simp only [Verdict.ofElement, DocComment.positionOf, DocComment.textOf, htag]
  cases kind with
  | named family =>
    simp only [verdictsOnTags, NamedTags.faults_map hmeaningful, NamedTags.missingNames, List.map_map,
      Function.comp_def, KeyedElement.key_mapElement, KeyedElement.element_mapElement, hverdict]
  | exception =>
    simp only [verdictsOnTags, Declaration.repeated_map, List.filter_map, List.map_map,
      Function.comp_def, KeyedElement.key_mapElement, KeyedElement.element_mapElement, hverdict,
      hmeaningful]

/-- An element keeps its key when only what is inside of it is changed. -/
theorem keyedAmong_map {change : Element → Element}
    (htag : ∀ element, (change element).tag = element.tag) (elements : List Element)
    (kind : KeyedKind) :
    kind.keyedAmong (elements.map change) =
      (kind.keyedAmong elements).map (·.mapElement change) := by
  rw [keyedAmong, keyedAmong, List.filter_map, List.filterMap_map, List.map_filterMap]
  simp only [Function.comp_def, htag, Option.map_map]
  rfl

end KeyedKind

/-! ## Tags without a key taken away -/

/-- The tag needs a key and has none: a name of a parameter or a type parameter, or the target of an
exception. -/
def Markup.Tag.lacksKey (tag : Tag) : Bool :=
  (tag.name == "param" || tag.name == "typeparam") && tag.givenName?.isNone ||
    tag.name == "exception" && tag.target?.isNone

theorem KeyedKind.lacksKey_eq (kind : KeyedKind) {tag : Tag} (hname : tag.name = kind.tagName) :
    tag.lacksKey = (kind.key? tag).isNone := by
  rcases kind with (_ | _) | _ <;>
    simp [Tag.lacksKey, hname, KeyedKind.tagName, KeyedKind.key?, NamedTags.Family.tagName]

/-- A tag without a key renders no text. -/
theorem Markup.Tag.not_isSeen_of_lacksKey {tag : Tag} (h : tag.lacksKey = true) : ¬tag.IsSeen := by
  have hname : tag.name = "param" ∨ tag.name = "typeparam" ∨ tag.name = "exception" := by
    simp only [lacksKey, Bool.or_eq_true, Bool.and_eq_true, beq_iff_eq] at h
    tauto
  rintro (hinherited | ⟨hreference, -, -, -, -⟩)
  · simp [hinherited] at hname
  · rcases hname with hname | hname | hname <;> simp [hname] at hreference

namespace Markup

/-- The element without those inside of it that have some tags. -/
def Element.unwrapInside (drop : Tag → Bool) (element : Element) : Element :=
  ⟨element.tag, Node.unwrapAll drop element.children⟩

theorem Element.isMeaningful_unwrapInside {drop : Tag → Bool}
    (hdrop : ∀ tag, drop tag = true → ¬tag.IsSeen) (element : Element) :
    (element.unwrapInside drop).isMeaningful = element.isMeaningful :=
  Node.anyMeaningful_unwrapAll hdrop element.children

namespace Node

mutual

/-- Without some elements, a node has its other elements. -/
theorem elementsOfAll_unwrap (drop : Tag → Bool) (node : Node) :
    elementsOfAll (node.unwrap drop) =
      (node.elements.filter fun element => !drop element.tag).map (Element.unwrapInside drop) := by
  cases node with
  | text span content => rfl
  | element tag children =>
    rw [unwrap, elements, List.filter_cons]
    -- If the element itself is taken out, the elements inside of it stand where it stood.
    cases htag : drop tag with
    | true => simp [elementsOfAll_unwrapAll drop children]
    | false =>
      simp [elementsOfAll, elements, elementsOfAll_unwrapAll drop children, Element.unwrapInside]

/-- Without some elements, a list of nodes has its other elements, in their order. -/
theorem elementsOfAll_unwrapAll (drop : Tag → Bool) (nodes : List Node) :
    elementsOfAll (unwrapAll drop nodes) =
      ((elementsOfAll nodes).filter fun element => !drop element.tag).map
        (Element.unwrapInside drop) := by
  cases nodes with
  | nil => rfl
  | cons node nodes =>
    rw [unwrapAll, elementsOfAll_append, elementsOfAll_unwrap drop node,
      elementsOfAll_unwrapAll drop nodes, elementsOfAll, List.filter_append, List.map_append]

end

end Node
end Markup

namespace KeyedKind

/-- Elements without a key are not among those with one anyway. -/
theorem keyedAmong_filter (elements : List Element) (kind : KeyedKind) :
    kind.keyedAmong (elements.filter fun element => !element.tag.lacksKey) =
      kind.keyedAmong elements := by
  rw [keyedAmong, keyedAmong]
  -- An element of the kind that is deleted has no key; one of another kind is passed over anyway.
  induction elements with
  | nil => rfl
  | cons element elements ih =>
    by_cases hname : element.tag.name = kind.tagName
    · have hlacks := kind.lacksKey_eq hname
      cases hkey : kind.key? element.tag <;> simp_all
    · cases element.tag.lacksKey <;> simp_all

variable {declaration : Declaration} {doc : DocComment}

theorem findingsAmong_filter (path : String) (source : List Char) (elements : List Element)
    (kind : KeyedKind) :
    kind.findingsAmong path source declaration doc
        (elements.filter fun element => !element.tag.lacksKey) =
      kind.findingsAmong path source declaration doc elements := by
  rw [findingsAmong, keyedAmong_filter, findingsAmong]

/-- Elements without a key are missed in a comment no more than in the list of its elements: what they
stand around is found without them, and elements around them have content as before. -/
theorem findingsAmong_unwrapAll (path : String) (source : List Char) (nodes : List Node)
    (kind : KeyedKind) :
    kind.findingsAmong path source declaration doc
        (Node.elementsOfAll (Node.unwrapAll Tag.lacksKey nodes)) =
      kind.findingsAmong path source declaration doc (Node.elementsOfAll nodes) := by
  have htag (element : Element) : (element.unwrapInside Tag.lacksKey).tag = element.tag := rfl
  have hmeaningful (element : Element) :
      (element.unwrapInside Tag.lacksKey).isMeaningful = element.isMeaningful :=
    element.isMeaningful_unwrapInside fun _ => Tag.not_isSeen_of_lacksKey
  rw [Node.elementsOfAll_unwrapAll, findingsAmong, keyedAmong_map htag, keyedAmong_filter,
    verdictsOnTags_map htag hmeaningful, findingsAmong]

end KeyedKind

/-! ## The tags of a file -/

namespace Code.SourceFile

/-- The tags of a file that need a key are divided between the check of the markup and the checks of
declarations. -/
structure DividesTags (file : SourceFile) (options : Options) (path : String) : Prop where
  /-- In every doc comment a tag is either reported for having no key or goes to a check of
  declarations. -/
  divides : ∀ (doc : DocComment) (kind : KeyedKind), doc.Divides kind
  /-- The check of the markup reports the tags without a key, one comment of the file after the
  other. -/
  markup : ∀ kind : KeyedKind,
    (Detector.wellFormed.findings options path file).filter (·.smell == kind.smell) =
      file.docComments.flatMap fun doc => (kind.unkeyed doc).map fun element =>
        Finding.ofVerdict path file.text (.ofElement doc element kind.smell [])
  /-- No other check reports them. -/
  others : ∀ (kind : KeyedKind) (detector : Detector), detector ≠ .wellFormed →
    (detector.findings options path file).filter (·.smell == kind.smell) = []
  /-- The checks of declarations are made with the elements of the doc comment. -/
  findingsAmong_elements : ∀ declaration ∈ file.declarations, ∀ doc, declaration.doc = some doc →
    ∀ kind : KeyedKind, kind.findingsAmong path file.text declaration doc doc.elements =
      kind.detector.contribution options path file.text declaration
  /-- Their findings stay the same when all elements without a key are deleted from the list, -/
  deleted : ∀ declaration ∈ file.declarations, ∀ doc, declaration.doc = some doc →
    ∀ kind : KeyedKind,
      kind.findingsAmong path file.text declaration doc
          (doc.elements.filter fun element => !element.tag.lacksKey) =
        kind.detector.contribution options path file.text declaration
  /-- or taken out of the comment, with what is inside of them left there. -/
  unwrapped : ∀ declaration ∈ file.declarations, ∀ doc, declaration.doc = some doc →
    ∀ kind : KeyedKind,
      kind.findingsAmong path file.text declaration doc
          (Node.elementsOfAll (Node.unwrapAll Tag.lacksKey doc.forest.nodes)) =
        kind.detector.contribution options path file.text declaration

variable {file : SourceFile} {options : Options} {path : String}

theorem filter_findings (detector : Detector) (smell : Smell) :
    (detector.findings options path file).filter (·.smell == smell) =
      ((detector.verdicts options file).filter (·.smell == smell)).map
        (Finding.ofVerdict path file.text) := by
  rw [Detector.findings, List.filter_map]
  rfl

/-- Tags with a key and tags without go to different checks, in every file. -/
theorem dividesTags (file : SourceFile) (options : Options) (path : String) :
    file.DividesTags options path where
  divides doc kind := doc.divides kind
  markup kind := by
    rw [filter_findings, Detector.verdicts, List.filter_flatMap, List.map_flatMap]
    simp only [DocComment.filter_markupVerdicts_smell, List.map_map, Function.comp_def]
  others kind detector hdetector := by
    rw [filter_findings, List.map_eq_nil_iff, List.filter_eq_nil_iff]
    intro verdict hverdict hsmell
    have hdetected := Detector.detector_of_mem_verdicts hverdict
    rw [beq_iff_eq.1 hsmell, kind.detector_smell] at hdetected
    exact hdetector hdetected.symm
  findingsAmong_elements declaration _ doc hdoc kind :=
    kind.findingsAmong_elements options path file.text hdoc
  deleted declaration _ doc hdoc kind := by
    rw [kind.findingsAmong_filter, kind.findingsAmong_elements options path file.text hdoc]
  unwrapped declaration _ doc hdoc kind := by
    rw [kind.findingsAmong_unwrapAll]
    exact kind.findingsAmong_elements options path file.text hdoc

end Code.SourceFile
end DocAudit

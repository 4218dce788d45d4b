import DocAudit.Proofs.Declaration.Extent
import DocAudit.Proofs.Detector.Apart

/-!
# Documented return values

The tags for the value given back are checked against the declaration: all but the first are
duplicates, and about the first, or about there being none, one more thing can be said. Which one it is
depends on whether the declaration gives a value back, which its node tells.

* `Declaration.ReturnsVoid`: a return type that stands for no value;
* `Code.SourceFile.returns?_of_mem_declarations`: what declarations give back;
* `Declaration.returnsTags`: the tags of a comment, picked out of its elements;
* `Declaration.ReturnsFault`: what is wrong with the tags, apart from duplicates;
* `Code.SourceFile.checksReturns`: what is reported of the return values of a file.
-/

namespace DocAudit

open Code Text

namespace Declaration

/-! ## What is given back -/

/-- The node stands for what a declaration gives back: it has that role, or no node has and it is the
type of the declaration. -/
def IsReturnType (node type : Node) : Prop :=
  node.childInField? "returns" = some type ∨
    node.childInField? "returns" = none ∧ node.childInField? "type" = some type

/-- What the declaration of a node gives back is written as nothing. -/
def ReturnsVoid (source : List Char) (node : Node) : Prop :=
  ∃ type, IsReturnType node type ∧ trim (type.text source) = "void".toList

variable {source : List Char} {node : Node}

theorem returnShapeOf_eq_void_iff :
    returnShapeOf source node = .void ↔ ReturnsVoid source node := by
  have htype (type : Node) :
      (node.childInField? "returns").or (node.childInField? "type") = some type ↔
        IsReturnType node type := Option.or_eq_some_iff
  simp only [ReturnsVoid, ← htype]
  rw [returnShapeOf]
  cases (node.childInField? "returns").or (node.childInField? "type") with
  | none => simp
  | some type => simp

/-- Methods, delegates and operators give back what their node says, conversions always a value, and
for other declarations it is no question. -/
theorem returns?_of_form? {form : DeclarationForm} (h : form? source node = some form) :
    form.returns? =
      if form.kind ∈ [.method, .delegate, .operator] then some (returnShapeOf source node)
      else if form.kind = .conversionOperator then some .value
      else none := by
  rw [form?] at h
  split at h <;> cases h <;> rfl

/-! ## What is wrong with the tags -/

/-- What is wrong with the tags of a doc comment for a value given back, apart from duplicates. -/
inductive ReturnsFault (source : List Char) (declaration : Declaration) (doc : DocComment) :
    ReturnShape → List Markup.Element → Verdict → Prop
  /-- There is a tag, and no value is given back. -/
  | onVoid (first : Markup.Element) (later : List Markup.Element) :
      ReturnsFault source declaration doc .void (first :: later)
        (.ofElement doc first .returnsOnVoidMember [])
  /-- A value is given back, and there is no tag. -/
  | missing :
      ReturnsFault source declaration doc .value []
        { smell := .missingReturns, tagName := "returns", position := declaration.anchor,
          excerpt := declaration.heading source, details := [] }
  /-- A value is given back, and the first tag has no content. -/
  | empty (first : Markup.Element) (later : List Markup.Element)
      (hempty : first.isMeaningful = false) :
      ReturnsFault source declaration doc .value (first :: later)
        (.ofElement doc first .emptyReturns [])

theorem returnsVerdict?_eq_some_iff {declaration : Declaration} {doc : DocComment}
    {shape : ReturnShape} {tags : List Markup.Element} {verdict : Verdict} :
    returnsVerdict? source declaration doc shape tags.head? = some verdict ↔
      ReturnsFault source declaration doc shape tags verdict := by
  constructor
  · intro h
    cases shape with
    | void =>
      cases tags with
      | nil => cases h
      | cons first later =>
        obtain rfl := Option.some.inj h
        exact .onVoid first later
    | value =>
      cases tags with
      | nil =>
        obtain rfl := Option.some.inj h
        exact .missing
      | cons first later =>
        obtain ⟨hempty, hverdict⟩ := Option.ite_none_left_eq_some.1 h
        obtain rfl := Option.some.inj hverdict
        exact .empty first later (Bool.not_eq_true _ ▸ hempty)
  · intro h
    cases h with
    | onVoid first later => rfl
    | missing => rfl
    | empty first later hempty => simp [returnsVerdict?, hempty]

/-! ## What is reported of one declaration -/

/-- The tags of a doc comment for the value given back, at any depth and in document order. -/
def returnsTags (doc : DocComment) : List Markup.Element :=
  doc.elements.filter (·.tag.name == "returns")

/-- The verdicts on the tags of a doc comment that come after the first. -/
def duplicateReturnsVerdicts (doc : DocComment) : List Verdict :=
  ((returnsTags doc).drop 1).map fun element =>
    .ofElement doc element .duplicateReturnsTag []

/-- The report on the return documentation of a declaration with a doc comment says of each tag but
the first that it is a duplicate, and then at most one thing more. -/
structure ReportsReturns (path : String) (source : List Char) (declaration : Declaration)
    (doc : DocComment) (shape : ReturnShape) (findings : List Finding) : Prop where
  /-- The duplicates come first, in document order, and what else is wrong comes last. -/
  findings_eq : ∃ further : List Verdict,
    findings = (duplicateReturnsVerdicts doc ++ further).map (Finding.ofVerdict path source) ∧
      further.length ≤ 1 ∧
      ∀ verdict, verdict ∈ further ↔
        ReturnsFault source declaration doc shape (returnsTags doc) verdict
  /-- All tags but one are duplicates. -/
  duplicates : findings.countP (·.smell = .duplicateReturnsTag) =
    (returnsTags doc).length - 1

variable {declaration : Declaration} {doc : DocComment} {shape : ReturnShape}

/-- The check of a documented declaration finds the duplicates and what is wrong with the first
tag. -/
theorem returnsVerdicts_eq (hshape : declaration.form.returns? = some shape)
    (hdoc : declaration.doc = some doc) :
    declaration.returnsVerdicts source = duplicateReturnsVerdicts doc ++
      (returnsVerdict? source declaration doc shape (returnsTags doc).head?).toList := by
  have htags : doc.elementsNamed returnsTag = returnsTags doc := rfl
  rw [returnsVerdicts, hshape, hdoc]
  dsimp only
  rw [htags, duplicateReturnsVerdicts]

theorem reportsReturns_returnsVerdicts (path : String)
    (hshape : declaration.form.returns? = some shape) (hdoc : declaration.doc = some doc) :
    ReportsReturns path source declaration doc shape
      ((declaration.returnsVerdicts source).map (Finding.ofVerdict path source)) := by
  rw [returnsVerdicts_eq hshape hdoc]
  refine ⟨⟨_, rfl, Option.length_toList_le, fun verdict => ?_⟩, ?_⟩
  · rw [Option.mem_toList, returnsVerdict?_eq_some_iff]
  · -- What is wrong with the first tag is not that it is a duplicate.
    have hfurther : (returnsVerdict? source declaration doc shape
        (returnsTags doc).head?).toList.countP
          (·.smell = .duplicateReturnsTag) = 0 := by
      rw [List.countP_eq_zero]
      intro verdict hverdict hsmell
      exact smell_ne_of_returnsVerdict? (Option.mem_toList.1 hverdict) (of_decide_eq_true hsmell)
    have hlater : (duplicateReturnsVerdicts doc).countP (·.smell = .duplicateReturnsTag) =
        (returnsTags doc).length - 1 := by
      rw [duplicateReturnsVerdicts, List.countP_map, ← List.length_drop]
      exact List.countP_eq_length.2 fun _ _ => rfl
    rw [List.countP_map, ← hlater, ← Nat.add_zero (List.countP _ (duplicateReturnsVerdicts doc)),
      ← hfurther, ← List.countP_append]
    rfl

end Declaration

/-! ## What is reported of a file -/

namespace Code.SourceFile

/-- The return values that the declarations of a file document are checked against what the
declarations give back. -/
structure ChecksReturns (file : SourceFile) (options : Options) (path : String) : Prop where
  /-- The detector reports of one declaration after the other. -/
  findings_eq : Detector.returns.findings options path file =
    file.declarations.flatMap (Detector.returns.contribution options path file.text)
  /-- Methods, delegates and operators give nothing back if that is what is written, -/
  void_iff : ∀ declaration ∈ file.declarations, declaration.form.returns? = some .void ↔
    declaration.kind ∈ [.method, .delegate, .operator] ∧
      Declaration.ReturnsVoid file.text declaration.node
  /-- and else a value, as conversions always do. -/
  value_iff : ∀ declaration ∈ file.declarations, declaration.form.returns? = some .value ↔
    declaration.kind = .conversionOperator ∨ declaration.kind ∈ [.method, .delegate, .operator] ∧
      ¬Declaration.ReturnsVoid file.text declaration.node
  /-- The tags of a documented declaration of these kinds are checked. -/
  documented : ∀ declaration ∈ file.declarations, ∀ shape doc,
    declaration.form.returns? = some shape → declaration.doc = some doc →
    declaration.ReportsReturns path file.text doc shape
      (Detector.returns.contribution options path file.text declaration)
  /-- Nothing is said about any other declaration. -/
  nothingElse : ∀ declaration ∈ file.declarations,
    declaration.form.returns? = none ∨ declaration.doc = none →
    Detector.returns.contribution options path file.text declaration = []

variable {file : SourceFile} {declaration : Declaration}

/-- What a declaration gives back is told by its kind and its node. -/
theorem returns?_of_mem_declarations (h : declaration ∈ file.declarations) :
    declaration.form.returns? =
      if declaration.kind ∈ [.method, .delegate, .operator] then
        some (Declaration.returnShapeOf file.text declaration.node)
      else if declaration.kind = .conversionOperator then some .value
      else none := by
  obtain ⟨place, -, hmade⟩ := exists_place_of_mem_declarations h
  obtain ⟨form, hform, rfl⟩ := Option.map_eq_some_iff.1 hmade
  exact Declaration.returns?_of_form? hform

theorem returns?_eq_void_iff (h : declaration ∈ file.declarations) :
    declaration.form.returns? = some .void ↔ declaration.kind ∈ [.method, .delegate, .operator] ∧
      Declaration.ReturnsVoid file.text declaration.node := by
  rw [returns?_of_mem_declarations h, ← Declaration.returnShapeOf_eq_void_iff]
  by_cases hkind : declaration.kind ∈ [.method, .delegate, .operator]
  · simp [hkind]
  · by_cases hconversion : declaration.kind = .conversionOperator <;> simp [hkind, hconversion]

theorem returns?_eq_value_iff (h : declaration ∈ file.declarations) :
    declaration.form.returns? = some .value ↔ declaration.kind = .conversionOperator ∨
      declaration.kind ∈ [.method, .delegate, .operator] ∧
        ¬Declaration.ReturnsVoid file.text declaration.node := by
  rw [returns?_of_mem_declarations h, ← Declaration.returnShapeOf_eq_void_iff]
  by_cases hconversion : declaration.kind = .conversionOperator
  · simp [hconversion]
  · by_cases hkind : declaration.kind ∈ [.method, .delegate, .operator]
    · cases Declaration.returnShapeOf file.text declaration.node <;> simp [hconversion, hkind]
    · simp [hconversion, hkind]

/-- The documentation of return values is checked in every file. -/
theorem checksReturns (file : SourceFile) (options : Options) (path : String) :
    file.ChecksReturns options path where
  findings_eq := Detector.findings_eq_flatMap file options path nofun
  void_iff _ hdeclaration := returns?_eq_void_iff hdeclaration
  value_iff _ hdeclaration := returns?_eq_value_iff hdeclaration
  documented _ _ _ _ hshape hdoc := Declaration.reportsReturns_returnsVerdicts path hshape hdoc
  nothingElse declaration _ h := by
    rw [Detector.contribution, Detector.verdictsOn, Declaration.returnsVerdicts]
    rcases h with h | h <;> simp [h]

end Code.SourceFile
end DocAudit

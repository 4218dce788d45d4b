import DocAudit.Proofs.Finding.Uniqueness

/-!
# The matrix of allowed tags

Which tags may stand at the top level of a comment depends on the kind of member alone, and what the
tags of parameters, type parameters and returns say is judged against the declaration itself. The
matrix allows each of these tags to every kind of member that has what the tag is about. So a tag that
the matrix rejects is not one that another check judges, and a place in the source belongs to one
element of one doc comment of one declaration.

* `DeclarationForm.isMisplaced_of_parameters?` and so on: the matrix and the parts of a declaration;
* `DocComment.KeepsPlaces.tagName_eq`: verdicts at one place are about one tag;
* `Code.SourceFile.location_ne_of_isLeftToOthers`: no other verdict stands where the matrix rejects a
  tag.
-/

namespace DocAudit

open Markup

/-- The smell is one of a tag that the matrix leaves to another check: a tag for a parameter, a type
parameter or the value given back, or a tag with an unknown name. -/
def Smell.isLeftToOthers : Smell → Bool
  | unknownTag | emptyParamDescription | unknownParamTag | duplicateParamTag
  | emptyTypeParamDescription | unknownTypeParamTag | duplicateTypeParamTag
  | emptyReturns | returnsOnVoidMember | duplicateReturnsTag => true
  | _ => false

theorem Smell.isOnElement_of_isLeftToOthers {smell : Smell} (h : smell.isLeftToOthers = true) :
    smell.isOnElement = true := by
  cases smell <;> first | rfl | cases h

/-! ## The matrix and the parts of a declaration -/

namespace DeclarationForm

variable {form : DeclarationForm} {names : List DeclaredName}

/-- Every kind of member with parameters may have tags for them. -/
theorem isMisplaced_of_parameters? (h : form.parameters? = some names) :
    Declaration.isMisplaced form.kind "param" = false := by
  cases form <;> first | rfl | cases h

/-- Every kind of member with type parameters may have tags for them. -/
theorem isMisplaced_of_typeParameters? (h : form.typeParameters? = some names) :
    Declaration.isMisplaced form.kind "typeparam" = false := by
  cases form <;> first | rfl | cases h

/-- Every kind of member for which it is a question whether a value is given back may have a tag for
that value. -/
theorem isMisplaced_of_returns? {shape : ReturnShape} (h : form.returns? = some shape) :
    Declaration.isMisplaced form.kind Declaration.returnsTag = false := by
  cases form <;> first | rfl | cases h

end DeclarationForm

/-! ## Which tags verdicts are about -/

/-- A verdict that an element has an unknown name gives that name. -/
theorem DocComment.isKnown_of_mem_markupVerdicts {doc : DocComment} {verdict : Verdict}
    (h : verdict ∈ doc.markupVerdicts) (hsmell : verdict.smell = .unknownTag) :
    verdict.IsAbout doc ∧ Vocabulary.isKnown verdict.tagName = false := by
  rcases List.mem_append.1 h with h | h
  · obtain ⟨element, helement, h⟩ := List.mem_flatMap.1 h
    refine ⟨isAbout_of_mem_elementVerdicts helement h, ?_⟩
    rw [elementVerdicts, List.mem_append, List.mem_append] at h
    rcases h with (h | h) | h
    · split at h
      · cases h
      · next hknown =>
        obtain rfl := List.mem_singleton.1 h
        exact Bool.eq_false_iff.2 hknown
    -- The other verdicts on an element have other smells.
    · split at h
      · obtain rfl := List.mem_singleton.1 h
        cases hsmell
      · cases h
    · obtain ⟨smell, hfault, rfl⟩ := Option.map_eq_some_iff.1 (Option.mem_toList.1 h)
      exact absurd hsmell (formFault?_ne_unknownTag hfault)
  · obtain ⟨tag, -, -, rfl⟩ := exists_tag_of_mem_rawVerdicts h
    cases hsmell

/-- The elements of a name have that name. -/
theorem DocComment.tagName_of_mem_elementsNamed {doc : DocComment} {name : String}
    {element : Element} (h : element ∈ doc.elementsNamed name) : element.tag.name = name := by
  simpa using (List.mem_filter.1 h).2

/-- So have those of them with a key. -/
theorem DocComment.tagName_of_mem_keyedBy {doc : DocComment} {key? : Tag → Option String}
    {name : String} {keyed : KeyedElement} (h : keyed ∈ doc.keyedBy key? name) :
    keyed.element.tag.name = name := by
  obtain ⟨element, helement, hkeyed⟩ := List.mem_filterMap.1 h
  obtain ⟨key, -, rfl⟩ := Option.map_eq_some_iff.1 hkeyed
  exact tagName_of_mem_elementsNamed helement

/-- A verdict on the tags of a declaration's names is about a tag of that name, and there is a list of
names to speak of. -/
theorem NamedTags.tagName_of_mem_check {smells : Smells} {tagName : String}
    {declared? : Option (List DeclaredName)} {declaration : Declaration} {verdict : Verdict}
    (h : verdict ∈ check smells tagName declared? declaration) :
    verdict.tagName = tagName ∧ ∃ names, declared? = some names := by
  unfold check at h
  split at h
  · refine ⟨?_, _, rfl⟩
    rcases List.mem_append.1 h with h | h
    · obtain ⟨⟨tag, smell⟩, hfault, rfl⟩ := List.mem_map.1 h
      exact DocComment.tagName_of_mem_keyedBy (exists_fault?_of_mem_faults hfault).1
    · -- A tag that is missing is named all the same.
      obtain ⟨name, -, rfl⟩ := List.mem_map.1 h
      rfl
  · cases h

namespace Declaration

variable {declaration : Declaration} {source : List Char} {verdict : Verdict}

/-- A verdict on the return documentation is about a tag for the value given back, and it is a
question whether there is such a value. -/
theorem tagName_of_mem_returnsVerdicts (h : verdict ∈ declaration.returnsVerdicts source) :
    verdict.tagName = returnsTag ∧ ∃ shape, declaration.form.returns? = some shape := by
  unfold returnsVerdicts at h
  split at h
  · next shape doc hshape hdoc =>
    refine ⟨?_, shape, hshape⟩
    have hnamed {first : Element} (hfirst : (doc.elementsNamed returnsTag).head? = some first) :
        first.tag.name = returnsTag :=
      DocComment.tagName_of_mem_elementsNamed (List.mem_of_mem_head? hfirst)
    rcases List.mem_append.1 h with h | h
    · obtain ⟨element, helement, rfl⟩ := List.mem_map.1 h
      exact DocComment.tagName_of_mem_elementsNamed (List.mem_of_mem_drop helement)
    · have hverdict := Option.mem_toList.1 h
      cases hfirst : (doc.elementsNamed returnsTag).head? with
      | none =>
        rw [hfirst] at hverdict
        cases shape <;> cases hverdict
        rfl
      | some first =>
        rw [hfirst] at hverdict
        cases shape with
        | void =>
          obtain rfl := Option.some.inj hverdict
          exact hnamed hfirst
        | value =>
          obtain ⟨-, hverdict⟩ := Option.ite_none_left_eq_some.1 hverdict
          obtain rfl := Option.some.inj hverdict
          exact hnamed hfirst
  · cases h

/-- What the matrix rejects is misplaced. -/
theorem isMisplaced_of_mem_memberTagVerdicts (h : verdict ∈ declaration.memberTagVerdicts) :
    isMisplaced declaration.kind verdict.tagName = true := by
  unfold memberTagVerdicts at h
  split at h
  · cases h
  · obtain ⟨element, helement, rfl⟩ := List.mem_map.1 h
    exact (List.mem_filter.1 helement).2

/-- What another check of declarations judges is not misplaced. -/
theorem isMisplaced_eq_false_of_mem_verdictsOn {options : Options} {detector : Detector}
    (h : verdict ∈ detector.verdictsOn options source declaration)
    (hdetector : detector = .param ∨ detector = .typeParam ∨ detector = .returns) :
    isMisplaced declaration.kind verdict.tagName = false := by
  rcases hdetector with rfl | rfl | rfl
  · obtain ⟨hname, names, hnames⟩ := NamedTags.tagName_of_mem_check h
    rw [hname]
    exact DeclarationForm.isMisplaced_of_parameters? hnames
  · obtain ⟨hname, names, hnames⟩ := NamedTags.tagName_of_mem_check h
    rw [hname]
    exact DeclarationForm.isMisplaced_of_typeParameters? hnames
  · obtain ⟨hname, shape, hshape⟩ := tagName_of_mem_returnsVerdicts h
    rw [hname]
    exact DeclarationForm.isMisplaced_of_returns? hshape

end Declaration

/-! ## One place, one tag -/

/-- What is related to everything else in a list, but not to some member, is that member. -/
theorem eq_of_pairwise {α : Type} {R : α → α → Prop} {items : List α} (h : items.Pairwise R)
    {a b : α} (ha : a ∈ items) (hb : b ∈ items) (hab : ¬R a b) (hba : ¬R b a) : a = b := by
  rw [List.pairwise_iff_getElem] at h
  obtain ⟨i, hi, rfl⟩ := List.getElem_of_mem ha
  obtain ⟨j, hj, rfl⟩ := List.getElem_of_mem hb
  rcases Nat.lt_trichotomy i j with hij | rfl | hji
  · exact absurd (h i j hi hj hij) hab
  · rfl
  · exact absurd (h j i hj hi hji) hba

/-- Verdicts at one place are about one tag. -/
theorem DocComment.KeepsPlaces.tagName_eq {doc : DocComment} (hdoc : doc.KeepsPlaces)
    {verdict other : Verdict} (h : verdict.IsAbout doc) (hother : other.IsAbout doc)
    (hposition : verdict.position = other.position) : verdict.tagName = other.tagName := by
  obtain ⟨element, helement, hverdict, -⟩ := h
  obtain ⟨otherElement, hotherElement, hotherVerdict, -⟩ := hother
  rw [hverdict, hotherVerdict] at hposition ⊢
  have hplace : doc.positionOf element = doc.positionOf otherElement := hposition
  obtain rfl : element = otherElement :=
    eq_of_pairwise hdoc helement hotherElement (by omega) (by omega)
  rfl

namespace Code.SourceFile

variable {file : SourceFile} {options : Options} {path : String}

/-- No two declarations carry the same doc comment. -/
theorem declaration_eq_of_doc_eq (hfile : file.IsWellFormed) {declaration other : Declaration}
    (hmem : declaration ∈ file.declarations) (hother : other ∈ file.declarations)
    {doc : DocComment} (hdoc : declaration.doc = some doc) (hotherDoc : other.doc = some doc) :
    declaration = other := by
  have hwidth := start_lt_stop_of_mem_docComments hfile.isTree hfile.not_isComment_root doc
    (mem_docComments_of_doc hfile.isTree hmem hdoc)
  refine eq_of_pairwise (pairwise_docs hfile) hmem hother ?_ ?_
  · intro hapart
    have hle := hapart doc hdoc doc hotherDoc
    omega
  · intro hapart
    have hle := hapart doc hotherDoc doc hdoc
    omega

section Places

variable (hfile : file.IsWellFormed)
  (hmark : ∀ doc ∈ file.docComments, doc.markup.head? ≠ some '\uFEFF')
include hfile hmark

/-- Verdicts at one place are about elements of one doc comment. -/
theorem doc_eq_of_position_eq {doc other : DocComment} (hdoc : doc ∈ file.docComments)
    (hother : other ∈ file.docComments) {verdict otherVerdict : Verdict}
    (h : verdict.IsAbout doc) (hotherAbout : otherVerdict.IsAbout other)
    (hposition : verdict.position = otherVerdict.position) : doc = other := by
  obtain ⟨-, hstart, hstop⟩ := standsAt_of_isOnTag hfile hmark hdoc (Or.inl h)
  obtain ⟨-, hotherStart, hotherStop⟩ := standsAt_of_isOnTag hfile hmark hother (Or.inl hotherAbout)
  have hpairwise := pairwise_docComments hfile.isTree hfile.not_isComment_root
  -- The place is inside of both comments, so neither of them ends in front of the other.
  exact eq_of_pairwise hpairwise hdoc hother (by omega) (by omega)

omit hmark in
/-- A verdict that the matrix leaves to another check is about an element that the matrix does not
reject, whichever declaration the doc comment belongs to. -/
theorem exists_isAbout_of_isLeftToOthers {detector : Detector} {verdict : Verdict}
    (h : verdict ∈ detector.verdicts options file)
    (hleft : verdict.smell.isLeftToOthers = true) :
    ∃ doc ∈ file.docComments, verdict.IsAbout doc ∧
      ∀ declaration ∈ file.declarations, declaration.doc = some doc →
        Declaration.isMisplaced declaration.kind verdict.tagName = false := by
  have hsmell := Detector.detector_of_mem_verdicts h
  by_cases hdetector : detector = .wellFormed
  · -- Of the smells of the markup, only that of an unknown name is left to the others.
    subst hdetector
    have hunknown : verdict.smell = .unknownTag := by
      revert hleft hsmell
      cases verdict.smell <;> simp [Smell.detector, Smell.isLeftToOthers]
    obtain ⟨doc, hdoc, h⟩ := List.mem_flatMap.1 h
    obtain ⟨habout, hname⟩ := DocComment.isKnown_of_mem_markupVerdicts h hunknown
    refine ⟨doc, hdoc, habout, fun declaration _ _ => ?_⟩
    simp [Declaration.isMisplaced, hname]
  · have hothers : detector = .param ∨ detector = .typeParam ∨ detector = .returns := by
      rw [← hsmell] at hdetector ⊢
      revert hleft hdetector
      cases verdict.smell <;> simp [Smell.detector, Smell.isLeftToOthers]
    rw [Detector.verdicts_eq_flatMap file hdetector] at h
    obtain ⟨judged, hjudged, h⟩ := List.mem_flatMap.1 h
    obtain ⟨doc, hdoc, habout⟩ := Declaration.exists_isAbout_of_mem_verdicts
      (Detector.mem_verdicts_of_mem_verdictsOn h) (Smell.isOnElement_of_isLeftToOthers hleft)
    refine ⟨doc, mem_docComments_of_doc hfile.isTree hjudged hdoc, habout, ?_⟩
    intro declaration hdeclaration hsame
    -- The declaration with this doc comment is the one that was judged.
    obtain rfl := declaration_eq_of_doc_eq hfile hdeclaration hjudged hsame hdoc
    exact Declaration.isMisplaced_eq_false_of_mem_verdictsOn h hothers

/-- No verdict that the matrix leaves to another check stands where the matrix rejects a tag. -/
theorem position_ne_of_isLeftToOthers {detector : Detector} {verdict other : Verdict}
    (h : verdict ∈ Detector.memberTags.verdicts options file)
    (hother : other ∈ detector.verdicts options file)
    (hleft : other.smell.isLeftToOthers = true) : verdict.position ≠ other.position := by
  intro hposition
  obtain ⟨declaration, hdeclaration, hverdict⟩ := List.mem_flatMap.1 h
  obtain ⟨doc, hdoc, habout⟩ := Declaration.exists_isAbout_of_mem_memberTagVerdicts hverdict
  obtain ⟨otherDoc, hotherDoc, hotherAbout, hallowed⟩ :=
    exists_isAbout_of_isLeftToOthers hfile hother hleft
  have hmem := mem_docComments_of_doc hfile.isTree hdeclaration hdoc
  obtain rfl := doc_eq_of_position_eq hfile hmark hmem hotherDoc habout hotherAbout hposition
  have hname := (keepsPlaces hfile hmark hmem).tagName_eq habout hotherAbout hposition
  -- The one tag would be misplaced and not misplaced.
  have hmisplaced := Declaration.isMisplaced_of_mem_memberTagVerdicts hverdict
  rw [hname, hallowed declaration hdeclaration hdoc] at hmisplaced
  cases hmisplaced

end Places

/-- Verdicts with smells of elements are at different places of the text when their lines or columns
differ, and else at the same one. -/
theorem position_eq_of_locate_eq (hfile : file.IsWellFormed)
    (hmark : ∀ doc ∈ file.docComments, doc.markup.head? ≠ some '\uFEFF') {verdict other : Verdict}
    (h : verdict ∈ Detector.all.flatMap (·.verdicts options file))
    (hother : other ∈ Detector.all.flatMap (·.verdicts options file))
    (hon : verdict.smell.isOnElement = true) (hotherOn : other.smell.isOnElement = true)
    (hplace : Text.locate file.text verdict.position = Text.locate file.text other.position) :
    verdict.position = other.position := by
  have hstands := standsAt_of_mem_verdicts hfile hmark h hon
  have hotherStands := standsAt_of_mem_verdicts hfile hmark hother hotherOn
  rcases Nat.lt_trichotomy verdict.position other.position with hlt | heq | hgt
  · exact absurd hplace (Text.locate_before hstands hotherStands hlt).ne
  · exact heq
  · exact absurd hplace.symm (Text.locate_before hotherStands hstands hgt).ne

/-- No finding that the matrix leaves to another check stands at the line and column of a tag that the
matrix rejects. -/
theorem location_ne_of_isLeftToOthers (hfile : file.IsWellFormed)
    (hmark : ∀ doc ∈ file.docComments, doc.markup.head? ≠ some '\uFEFF') {finding other : Finding}
    (h : finding ∈ file.findings options path) (hother : other ∈ file.findings options path)
    (hsmell : finding.smell = .invalidTagOnMember) (hleft : other.smell.isLeftToOthers = true) :
    finding.location ≠ other.location := by
  intro hplace
  obtain ⟨detector, verdict, hverdict, rfl⟩ := exists_verdict_of_mem_findings h
  obtain ⟨otherDetector, otherVerdict, hotherVerdict, rfl⟩ := exists_verdict_of_mem_findings hother
  -- Only the detector of the matrix reports what the matrix rejects.
  obtain rfl : Detector.memberTags = detector := by
    rw [← Detector.detector_of_mem_verdicts hverdict, show verdict.smell = _ from hsmell]
    rfl
  apply position_ne_of_isLeftToOthers hfile hmark hverdict hotherVerdict hleft
  have hmem (detector : Detector) : detector ∈ Detector.all := by cases detector <;> decide
  refine position_eq_of_locate_eq hfile hmark (List.mem_flatMap.2 ⟨_, hmem _, hverdict⟩)
    (List.mem_flatMap.2 ⟨_, hmem _, hotherVerdict⟩) ?_ ?_ hplace
  · rw [show verdict.smell = _ from hsmell]
    rfl
  · exact Smell.isOnElement_of_isLeftToOthers hleft

/-- A generic class whose comment has a tag that types may not have, an empty tag for the type
parameter, and an unknown tag. -/
def genericClass : SourceFile where
  text := "/// <returns/><typeparam name=\"T\"/><foo/>\nclass C<T>{}".toList
  root :=
    .mk ⟨"compilation_unit", true, false, 0, 54, none⟩
      [.mk ⟨"comment", true, false, 0, 41, none⟩ [],
        .mk ⟨"class_declaration", true, false, 42, 54, none⟩
          [.mk ⟨"class", false, false, 42, 47, none⟩ [],
            .mk ⟨"identifier", true, false, 48, 49, some "name"⟩ [],
            .mk ⟨"type_parameter_list", true, false, 49, 52, none⟩
              [.mk ⟨"<", false, false, 49, 50, none⟩ [],
                .mk ⟨"type_parameter", true, false, 50, 51, none⟩
                  [.mk ⟨"identifier", true, false, 50, 51, some "name"⟩ []],
                .mk ⟨">", false, false, 51, 52, none⟩ []],
            .mk ⟨"declaration_list", true, false, 52, 54, some "body"⟩ []]]
  hasErrors := false

/-- The three tags of the class are reported at their own places. -/
theorem location_ne_of_isLeftToOthers_genericClass :
    genericClass.IsWellFormed ∧
      (∀ doc ∈ genericClass.docComments, doc.markup.head? ≠ some '\uFEFF') ∧
      ∃ finding ∈ genericClass.findings {} "a.cs", finding.smell = .invalidTagOnMember ∧
        (∃ other ∈ genericClass.findings {} "a.cs", other.smell = .emptyTypeParamDescription ∧
          other.smell.isLeftToOthers = true ∧ finding.location ≠ other.location) ∧
        ∃ other ∈ genericClass.findings {} "a.cs", other.smell = .unknownTag ∧
          other.smell.isLeftToOthers = true ∧ finding.location ≠ other.location := by
  have hfile : genericClass.IsWellFormed := ⟨by decide, rfl, by decide⟩
  have hmark : ∀ doc ∈ genericClass.docComments, doc.markup.head? ≠ some '\uFEFF' := by
    decide +kernel
  have hexists : ∀ smell ∈ [Smell.invalidTagOnMember, .emptyTypeParamDescription, .unknownTag],
      ∃ finding ∈ genericClass.findings {} "a.cs", finding.smell = smell := by
    decide +kernel
  obtain ⟨finding, hfinding, hsmell⟩ := hexists .invalidTagOnMember (by simp)
  have hne {other : Finding} (hother : other ∈ genericClass.findings {} "a.cs")
      (hleft : other.smell.isLeftToOthers = true) : finding.location ≠ other.location :=
    location_ne_of_isLeftToOthers hfile hmark hfinding hother hsmell hleft
  obtain ⟨typeParam, htypeParam, hempty⟩ := hexists .emptyTypeParamDescription (by simp)
  obtain ⟨stray, hstray, hunknown⟩ := hexists .unknownTag (by simp)
  have htypeParamLeft : typeParam.smell.isLeftToOthers = true := by
    rw [hempty]
    rfl
  have hstrayLeft : stray.smell.isLeftToOthers = true := by
    rw [hunknown]
    rfl
  exact ⟨hfile, hmark, finding, hfinding, hsmell,
    ⟨typeParam, htypeParam, hempty, htypeParamLeft, hne htypeParam htypeParamLeft⟩,
    stray, hstray, hunknown, hstrayLeft, hne hstray hstrayLeft⟩

end Code.SourceFile
end DocAudit

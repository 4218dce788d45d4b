import DocAudit.Analysis

/-!
# What verdicts are about

Most smells are smells of an element: a verdict with such a smell names an element of the doc comment
it was found in, or a start tag that the text of the comment has without an end tag. The other smells
are about something that is not there, or about the body of a declaration.

* `DocComment.isOnTag_of_mem_markupVerdicts`: verdicts on the markup of a doc comment;
* `Declaration.exists_isAbout_of_mem_verdicts`: verdicts on a declaration are about elements of its
  own doc comment;
* `Detector.mem_verdicts_cases`: there are no other verdicts.
-/

namespace DocAudit

open Markup

/-! ## Smells of elements -/

namespace Smell

/-- The smell is one of an element, and not of a declaration or of something that is missing. -/
def isOnElement : Smell → Bool
  | missingDocumentation | missingSummary | missingParamTag | missingTypeParamTag
  | missingReturns | rethrowCannotInferException => false
  | _ => true

/-- The smell is that an element has no content. -/
def isEmptiness : Smell → Bool
  | emptySummary | emptyParamDescription | emptyTypeParamDescription | emptyReturns
  | emptyExceptionDescription => true
  | _ => false

/-- What is empty is an element. -/
theorem isOnElement_of_isEmptiness {smell : Smell} (h : smell.isEmptiness = true) :
    smell.isOnElement = true := by
  cases smell <;> first | rfl | cases h

end Smell

namespace Verdict

/-- The verdict is about an element of the doc comment. When it says that the element is empty, the
element has no content that a reader sees. -/
def IsAbout (verdict : Verdict) (doc : DocComment) : Prop :=
  ∃ element ∈ doc.elements, verdict = ofElement doc element verdict.smell verdict.details ∧
    (verdict.smell.isEmptiness = true → element.isMeaningful = false)

/-- The verdict is about an element of the doc comment, or about a start tag without an end tag in
the text of its markup. -/
def IsOnTag (verdict : Verdict) (doc : DocComment) : Prop :=
  verdict.IsAbout doc ∨
    ∃ tag ∈ RawTag.all 0 doc.markup, tag.isUnclosed = true ∧ verdict = doc.rawVerdict tag

theorem isAbout_ofElement {doc : DocComment} {element : Element} {smell : Smell}
    (h : element ∈ doc.elements) (details : List String)
    (hempty : smell.isEmptiness = true → element.isMeaningful = false) :
    (ofElement doc element smell details).IsAbout doc :=
  ⟨element, h, rfl, hempty⟩

end Verdict

/-! ## Elements that are singled out -/

namespace DocComment

variable {doc : DocComment}

/-- The elements of a name are some of the elements, in their order. -/
theorem elementsNamed_sublist (name : String) : (doc.elementsNamed name).Sublist doc.elements :=
  List.filter_sublist

/-- Those of them that have a key are listed with it, and the others left out. -/
theorem map_element_keyedBy (key? : Tag → Option String) (name : String) :
    (doc.keyedBy key? name).map (·.element) =
      (doc.elementsNamed name).filter fun element => (key? element.tag).isSome := by
  rw [keyedBy]
  induction doc.elementsNamed name with
  | nil => rfl
  | cons element elements ih =>
    cases hkey : key? element.tag <;> simp [hkey, ih]

theorem key?_of_mem_keyedBy {key? : Tag → Option String} {name : String} {keyed : KeyedElement}
    (h : keyed ∈ doc.keyedBy key? name) : key? keyed.element.tag = some keyed.key := by
  obtain ⟨element, -, hkeyed⟩ := List.mem_filterMap.1 h
  obtain ⟨key, hkey, rfl⟩ := Option.map_eq_some_iff.1 hkeyed
  exact hkey

/-- The elements that have a key are some of the elements, in their order. -/
theorem keyedBy_sublist (key? : Tag → Option String) (name : String) :
    ((doc.keyedBy key? name).map (·.element)).Sublist doc.elements := by
  rw [map_element_keyedBy]
  exact List.filter_sublist.trans (elementsNamed_sublist name)

/-- So are the elements outside of all others. -/
theorem topLevel_sublist : doc.topLevel.Sublist doc.elements := by
  rw [topLevel, Forest.topLevel, elements, Forest.elements]
  induction doc.forest.nodes with
  | nil => exact List.Sublist.refl _
  | cons node nodes ih =>
    cases node with
    | text span content => exact ih
    | element tag children =>
      show (⟨tag, children⟩ :: nodes.filterMap Node.element?).Sublist
        (⟨tag, children⟩ :: (Node.elementsOfAll children ++ Node.elementsOfAll nodes))
      exact (ih.trans (List.sublist_append_right _ _)).cons_cons _

theorem mem_elements_of_mem_keyedBy {key? : Tag → Option String} {name : String}
    {keyed : KeyedElement} (h : keyed ∈ doc.keyedBy key? name) : keyed.element ∈ doc.elements :=
  (keyedBy_sublist key? name).subset (List.mem_map_of_mem h)

/-! ## Verdicts on the markup -/

/-- No fault of form is that an element is empty or has no end tag. -/
theorem formFault?_ne {element : Element} {smell : Smell} (h : formFault? element = some smell) :
    smell.isEmptiness = false ∧ smell ≠ .missingEndTag := by
  unfold formFault? at h
  split at h
  all_goals
    first
      | cases h
      | (split at h <;> cases h; exact ⟨rfl, by decide⟩)

/-- What a verdict on an element can say: its name is unknown, its end tag never came, or there is a
fault of its form. -/
theorem exists_of_mem_elementVerdicts {element : Element} {verdict : Verdict}
    (h : verdict ∈ doc.elementVerdicts element) :
    verdict = .ofElement doc element verdict.smell verdict.details ∧
      (verdict.smell = .unknownTag ∨
        verdict.smell = .missingEndTag ∧ isUnclosed element = true ∨
        formFault? element = some verdict.smell) := by
  rw [elementVerdicts, List.mem_append, List.mem_append] at h
  rcases h with (h | h) | h
  · split at h
    · cases h
    · obtain rfl := List.mem_singleton.1 h
      exact ⟨rfl, Or.inl rfl⟩
  · split at h
    · next hunclosed =>
      obtain rfl := List.mem_singleton.1 h
      exact ⟨rfl, Or.inr (Or.inl ⟨rfl, hunclosed⟩)⟩
    · cases h
  · obtain ⟨smell, hsmell, rfl⟩ := Option.map_eq_some_iff.1 (Option.mem_toList.1 h)
    exact ⟨rfl, Or.inr (Or.inr hsmell)⟩

theorem isAbout_of_mem_elementVerdicts {element : Element} {verdict : Verdict}
    (helement : element ∈ doc.elements) (h : verdict ∈ doc.elementVerdicts element) :
    verdict.IsAbout doc := by
  obtain ⟨hverdict, hsmell⟩ := exists_of_mem_elementVerdicts h
  refine ⟨element, helement, hverdict, fun hempty => ?_⟩
  -- None of these smells is that an element is empty.
  rcases hsmell with hsmell | ⟨hsmell, -⟩ | hsmell
  · rw [hsmell] at hempty
    cases hempty
  · rw [hsmell] at hempty
    cases hempty
  · rw [(formFault?_ne hsmell).1] at hempty
    cases hempty

/-- An element is said to have no end tag only if it is a container whose end tag never came. -/
theorem isUnclosed_of_mem_elementVerdicts {element : Element} {verdict : Verdict}
    (h : verdict ∈ doc.elementVerdicts element) (hsmell : verdict.smell = .missingEndTag) :
    isUnclosed element = true := by
  rcases (exists_of_mem_elementVerdicts h).2 with hother | ⟨-, hunclosed⟩ | hother
  · rw [hsmell] at hother
    cases hother
  · exact hunclosed
  · exact absurd hsmell (formFault?_ne hother).2

/-- The verdicts at new places are some of the verdicts. -/
theorem mem_of_mem_atNewPlaces {places : List Nat} {verdicts : List Verdict} {verdict : Verdict}
    (h : verdict ∈ atNewPlaces places verdicts) : verdict ∈ verdicts := by
  induction verdicts generalizing places with
  | nil => cases h
  | cons first verdicts ih =>
    rw [atNewPlaces] at h
    split at h
    · exact List.mem_cons_of_mem _ (ih h)
    · rcases List.mem_cons.1 h with rfl | h
      · exact List.mem_cons_self
      · exact List.mem_cons_of_mem _ (ih h)

/-- A verdict on the text of the markup is about a start tag that no end tag follows. -/
theorem exists_tag_of_mem_rawVerdicts {verdict : Verdict} (h : verdict ∈ doc.rawVerdicts) :
    ∃ tag ∈ RawTag.all 0 doc.markup, tag.isUnclosed = true ∧ verdict = doc.rawVerdict tag := by
  obtain ⟨tag, htag, rfl⟩ := List.mem_map.1 (mem_of_mem_atNewPlaces h)
  obtain ⟨hmem, hunclosed⟩ := List.mem_filter.1 htag
  exact ⟨tag, hmem, hunclosed, rfl⟩

theorem isOnTag_of_mem_markupVerdicts {verdict : Verdict} (h : verdict ∈ doc.markupVerdicts) :
    verdict.IsOnTag doc := by
  rcases List.mem_append.1 h with h | h
  · obtain ⟨element, helement, h⟩ := List.mem_flatMap.1 h
    exact Or.inl (isAbout_of_mem_elementVerdicts helement h)
  · exact Or.inr (exists_tag_of_mem_rawVerdicts h)

end DocComment

/-! ## Verdicts on named tags -/

namespace NamedTags

/-- The smells of a family of tags are told apart by what they are about. -/
structure Smells.IsFamily (smells : Smells) : Prop where
  /-- A missing tag is no element. -/
  missing : smells.missing.isOnElement = false
  /-- An unknown tag need not be empty. -/
  unknown : smells.unknown.isEmptiness = false
  /-- A duplicate need not be empty. -/
  duplicate : smells.duplicate.isEmptiness = false

theorem isFamily_paramSmells : paramSmells.IsFamily := ⟨rfl, rfl, rfl⟩

theorem isFamily_typeParamSmells : typeParamSmells.IsFamily := ⟨rfl, rfl, rfl⟩

variable {smells : Smells}

/-- What is faulty for being empty has no content. -/
theorem isMeaningful_of_fault? (hsmells : smells.IsFamily) {declared earlier : List String}
    {tag : KeyedElement} {smell : Smell} (h : fault? smells declared earlier tag = some smell)
    (hempty : smell.isEmptiness = true) : tag.element.isMeaningful = false := by
  unfold fault? at h
  split at h
  · obtain rfl := Option.some.inj h
    rw [hsmells.unknown] at hempty
    cases hempty
  · split at h
    · obtain rfl := Option.some.inj h
      rw [hsmells.duplicate] at hempty
      cases hempty
    · split at h
      · next hmeaningful => simpa using hmeaningful
      · cases h

/-- What is at fault is one of the tags. -/
theorem exists_fault?_of_mem_faults {declared earlier : List String} {tags : List KeyedElement}
    {tag : KeyedElement} {smell : Smell} (h : (tag, smell) ∈ faults smells declared earlier tags) :
    tag ∈ tags ∧ ∃ before, fault? smells declared before tag = some smell := by
  induction tags generalizing earlier with
  | nil => cases h
  | cons first tags ih =>
    rcases List.mem_append.1 h with h | h
    · obtain ⟨found, hfound, heq⟩ := Option.map_eq_some_iff.1 (Option.mem_toList.1 h)
      obtain ⟨rfl, rfl⟩ := Prod.mk.inj heq
      exact ⟨List.mem_cons_self, earlier, hfound⟩
    · obtain ⟨hmem, hfault⟩ := ih h
      exact ⟨List.mem_cons_of_mem _ hmem, hfault⟩

theorem exists_isAbout_of_mem_check (hsmells : smells.IsFamily) {tagName : String}
    {declared? : Option (List DeclaredName)} {declaration : Declaration} {verdict : Verdict}
    (h : verdict ∈ check smells tagName declared? declaration)
    (hsmell : verdict.smell.isOnElement = true) :
    ∃ doc, declaration.doc = some doc ∧ verdict.IsAbout doc := by
  unfold check at h
  split at h
  · next doc hdoc =>
    refine ⟨doc, hdoc, ?_⟩
    rcases List.mem_append.1 h with h | h
    · obtain ⟨⟨tag, smell⟩, hfault, rfl⟩ := List.mem_map.1 h
      obtain ⟨htag, before, hfault⟩ := exists_fault?_of_mem_faults hfault
      exact Verdict.isAbout_ofElement (DocComment.mem_elements_of_mem_keyedBy htag) _
        (isMeaningful_of_fault? hsmells hfault)
    · -- A missing tag is not one of the elements.
      obtain ⟨name, -, rfl⟩ := List.mem_map.1 h
      rw [hsmells.missing] at hsmell
      cases hsmell
  · cases h

end NamedTags

/-! ## Verdicts on declarations -/

namespace Declaration

variable {declaration : Declaration} {source : List Char} {verdict : Verdict}

theorem exists_isAbout_of_mem_documentationVerdicts {options : Options}
    (h : verdict ∈ declaration.documentationVerdicts options source)
    (hsmell : verdict.smell.isOnElement = true) :
    ∃ doc, declaration.doc = some doc ∧ verdict.IsAbout doc := by
  unfold documentationVerdicts at h
  split at h
  · cases h
  · split at h
    · -- Documentation that is missing is no element, nor is a summary.
      obtain rfl := List.mem_singleton.1 h
      cases hsmell
    · next doc hdoc =>
      refine ⟨doc, hdoc, ?_⟩
      split at h
      · unfold summaryVerdicts at h
        split at h
        · obtain rfl := List.mem_singleton.1 h
          cases hsmell
        · next summary later hnamed =>
          have hmem : summary ∈ doc.elementsNamed summaryTag := by
            rw [hnamed]
            exact List.mem_cons_self
          split at h
          · cases h
          · next hempty =>
            obtain rfl := List.mem_singleton.1 h
            exact Verdict.isAbout_ofElement ((DocComment.elementsNamed_sublist _).subset hmem) _
              fun _ => by simpa using hempty
      · cases h

theorem exists_isAbout_of_mem_returnsVerdicts
    (h : verdict ∈ declaration.returnsVerdicts source)
    (hsmell : verdict.smell.isOnElement = true) :
    ∃ doc, declaration.doc = some doc ∧ verdict.IsAbout doc := by
  unfold returnsVerdicts at h
  split at h
  · next shape doc _ hdoc =>
    refine ⟨doc, hdoc, ?_⟩
    rcases List.mem_append.1 h with h | h
    · obtain ⟨element, helement, rfl⟩ := List.mem_map.1 h
      have hmem := (DocComment.elementsNamed_sublist _).subset (List.mem_of_mem_drop helement)
      exact Verdict.isAbout_ofElement hmem _ nofun
    · have hverdict := Option.mem_toList.1 h
      cases hfirst : (doc.elementsNamed returnsTag).head? with
      | none =>
        -- Without a tag, at most its absence is reported.
        rw [hfirst] at hverdict
        cases shape with
        | void => cases hverdict
        | value =>
          obtain rfl := Option.some.inj hverdict
          cases hsmell
      | some first =>
        have hmem := (DocComment.elementsNamed_sublist _).subset (List.mem_of_mem_head? hfirst)
        rw [hfirst] at hverdict
        cases shape with
        | void =>
          obtain rfl := Option.some.inj hverdict
          exact Verdict.isAbout_ofElement hmem _ nofun
        | value =>
          obtain ⟨hempty, hverdict⟩ := Option.ite_none_left_eq_some.1 hverdict
          obtain rfl := Option.some.inj hverdict
          exact Verdict.isAbout_ofElement hmem _ fun _ => by simpa using hempty
  · cases h

/-- The elements that are repeated are some of the elements, in their order. -/
theorem repeated_sublist (earlier : List String) (tags : List KeyedElement) :
    (repeated earlier tags).Sublist tags := by
  induction tags generalizing earlier with
  | nil => exact List.Sublist.refl _
  | cons first tags ih =>
    rw [repeated]
    split
    · exact (ih _).cons_cons first
    · exact (ih _).cons first

theorem exists_isAbout_of_mem_exceptionVerdicts
    (h : verdict ∈ declaration.exceptionVerdicts source)
    (hsmell : verdict.smell.isOnElement = true) :
    ∃ doc, declaration.doc = some doc ∧ verdict.IsAbout doc := by
  rcases List.mem_append.1 h with h | h
  · cases hdoc : declaration.doc with
    | none => rw [hdoc] at h; cases h
    | some doc =>
      rw [hdoc] at h
      refine ⟨doc, rfl, ?_⟩
      rcases List.mem_append.1 h with h | h
      · obtain ⟨tag, htag, rfl⟩ := List.mem_map.1 h
        have hmem := DocComment.mem_elements_of_mem_keyedBy ((repeated_sublist [] _).subset htag)
        exact Verdict.isAbout_ofElement hmem _ nofun
      · obtain ⟨tag, htag, rfl⟩ := List.mem_map.1 h
        obtain ⟨htag, hempty⟩ := List.mem_filter.1 htag
        exact Verdict.isAbout_ofElement (DocComment.mem_elements_of_mem_keyedBy htag) _
          fun _ => by simpa using hempty
  · -- A bare throw is no element.
    obtain ⟨rethrow, -, rfl⟩ := Option.map_eq_some_iff.1 (Option.mem_toList.1 h)
    cases hsmell

theorem exists_isAbout_of_mem_memberTagVerdicts (h : verdict ∈ declaration.memberTagVerdicts) :
    ∃ doc, declaration.doc = some doc ∧ verdict.IsAbout doc := by
  unfold memberTagVerdicts at h
  split at h
  · cases h
  · next doc hdoc =>
    refine ⟨doc, hdoc, ?_⟩
    obtain ⟨element, helement, rfl⟩ := List.mem_map.1 h
    have hmem := DocComment.topLevel_sublist.subset (List.mem_filter.1 helement).1
    exact Verdict.isAbout_ofElement hmem _ nofun

/-- The verdicts of all detectors on a declaration. -/
def verdicts (options : Options) (source : List Char) (declaration : Declaration) : List Verdict :=
  declaration.documentationVerdicts options source ++ declaration.paramVerdicts ++
    declaration.typeParamVerdicts ++ declaration.returnsVerdicts source ++
      declaration.exceptionVerdicts source ++ declaration.memberTagVerdicts

/-- A verdict on a declaration with a smell of elements is about an element of its doc comment. -/
theorem exists_isAbout_of_mem_verdicts {options : Options}
    (h : verdict ∈ declaration.verdicts options source)
    (hsmell : verdict.smell.isOnElement = true) :
    ∃ doc, declaration.doc = some doc ∧ verdict.IsAbout doc := by
  simp only [verdicts, List.mem_append] at h
  rcases h with ((((h | h) | h) | h) | h) | h
  · exact exists_isAbout_of_mem_documentationVerdicts h hsmell
  · exact NamedTags.exists_isAbout_of_mem_check NamedTags.isFamily_paramSmells h hsmell
  · exact NamedTags.exists_isAbout_of_mem_check NamedTags.isFamily_typeParamSmells h hsmell
  · exact exists_isAbout_of_mem_returnsVerdicts h hsmell
  · exact exists_isAbout_of_mem_exceptionVerdicts h hsmell
  · exact exists_isAbout_of_mem_memberTagVerdicts h

end Declaration

/-! ## Verdicts of all detectors -/

/-- A verdict of a detector is one on the markup of a doc comment of the file, or on one of its
declarations. -/
theorem Detector.mem_verdicts_cases {options : Options} {file : Code.SourceFile}
    {detector : Detector} {verdict : Verdict} (h : verdict ∈ detector.verdicts options file) :
    (∃ doc ∈ file.docComments, verdict ∈ doc.markupVerdicts) ∨
      ∃ declaration ∈ file.declarations, verdict ∈ declaration.verdicts options file.text := by
  cases detector with
  | wellFormed => exact Or.inl (List.mem_flatMap.1 h)
  | _ =>
    obtain ⟨declaration, hdeclaration, h⟩ := List.mem_flatMap.1 h
    refine Or.inr ⟨declaration, hdeclaration, ?_⟩
    simp only [Declaration.verdicts, List.mem_append, h, true_or, or_true]

end DocAudit

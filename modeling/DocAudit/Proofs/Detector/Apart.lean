import DocAudit.Proofs.Detector.Elements

/-!
# No element twice

A check goes through the elements of a doc comment one after the other, and has at most one verdict
of a kind on each. Two lists of verdicts need more than that: those on repeated tags and on what is
wrong with the first one, and those on the elements and on the start tags of the text. The latter are
told the places of the former.

* `Verdict.Apart`: two verdicts are not the same complaint about the same element;
* `DocComment.KeepsPlaces`: the elements of a comment have places of their own;
* `DocComment.pairwise_apart_markupVerdicts`, `NamedTags.pairwise_apart_check` and so on: the verdicts
  of each check are apart.
-/

namespace DocAudit

open Markup

namespace Verdict

/-- The verdicts are not of the same kind on elements at the same place. -/
def Apart (verdict other : Verdict) : Prop :=
  verdict.smell = other.smell → verdict.smell.isOnElement = true →
    verdict.position ≠ other.position

variable {verdict other : Verdict}

theorem apart_of_smell_ne (h : verdict.smell ≠ other.smell) : verdict.Apart other :=
  fun hsmell => absurd hsmell h

theorem apart_of_position_lt (h : verdict.position < other.position) : verdict.Apart other :=
  fun _ _ => Nat.ne_of_lt h

/-- What is no element is not the same as another one. -/
theorem apart_of_not_isOnElement (h : other.smell.isOnElement = false) : verdict.Apart other := by
  intro hsmell hon
  rw [hsmell, h] at hon
  cases hon

end Verdict

theorem pairwise_toList {α : Type} {R : α → α → Prop} (x? : Option α) : x?.toList.Pairwise R := by
  cases x? with
  | none => exact List.Pairwise.nil
  | some x => exact List.pairwise_singleton R x

/-! ## Elements at places of their own -/

namespace DocComment

variable {doc : DocComment}

/-- The elements of the comment have different places in the source, in document order. -/
def KeepsPlaces (doc : DocComment) : Prop :=
  doc.elements.Pairwise fun element later => doc.positionOf element < doc.positionOf later

/-- Verdicts on some of the elements, one on each, are apart. -/
theorem KeepsPlaces.pairwise_apart_map (h : doc.KeepsPlaces) {α : Type} {items : List α}
    (elementOf : α → Element) (hitems : (items.map elementOf).Sublist doc.elements)
    {verdictOf : α → Verdict}
    (hverdict : ∀ item, (verdictOf item).position = doc.positionOf (elementOf item)) :
    (items.map verdictOf).Pairwise Verdict.Apart := by
  have hplaces := h.sublist hitems
  rw [List.pairwise_map] at hplaces ⊢
  refine hplaces.imp fun {item later} hlt => Verdict.apart_of_position_lt ?_
  rw [hverdict, hverdict]
  exact hlt

/-! ## Verdicts on the markup -/

/-- A fault of form is neither an unknown name nor an end tag that never came. -/
theorem formFault?_ne_unknownTag {element : Element} {smell : Smell}
    (h : formFault? element = some smell) : smell ≠ .unknownTag := by
  unfold formFault? at h
  split at h
  all_goals
    first
      | cases h
      | (split at h <;> cases h; decide)

/-- The verdicts on one element are of different kinds. -/
theorem pairwise_apart_elementVerdicts (doc : DocComment) (element : Element) :
    (doc.elementVerdicts element).Pairwise Verdict.Apart := by
  have hne : Smell.unknownTag ≠ .missingEndTag := by decide
  have happart {smell other : Smell} (h : smell ≠ other) (details : List String) :
      (Verdict.ofElement doc element smell [element.tag.name]).Apart
        (.ofElement doc element other details) := Verdict.apart_of_smell_ne h
  -- Each of the three kinds of verdicts is there or not, whatever the others are.
  unfold elementVerdicts
  dsimp only
  cases hform : formFault? element with
  | none => split <;> split <;> simp [happart hne]
  | some smell =>
    have hunknown := happart (formFault?_ne_unknownTag hform).symm []
    have hmissing := happart (formFault?_ne hform).2.symm []
    split <;> split <;> simp [happart hne, hunknown, hmissing]

variable {places : List Nat} {verdicts : List Verdict} {verdict : Verdict}

/-- A verdict at a new place is at none of the places that are known. -/
theorem position_notMem_of_mem_atNewPlaces (h : verdict ∈ atNewPlaces places verdicts) :
    verdict.position ∉ places := by
  induction verdicts generalizing places with
  | nil => cases h
  | cons first verdicts ih =>
    rw [atNewPlaces] at h
    split at h
    · exact ih h
    · next hnew =>
      rcases List.mem_cons.1 h with rfl | h
      · simpa using hnew
      · exact fun hmem => ih h (List.mem_cons_of_mem _ hmem)

/-- No place is new twice. -/
theorem pairwise_atNewPlaces (places : List Nat) (verdicts : List Verdict) :
    (atNewPlaces places verdicts).Pairwise fun verdict later =>
      verdict.position ≠ later.position := by
  induction verdicts generalizing places with
  | nil => exact List.Pairwise.nil
  | cons first verdicts ih =>
    rw [atNewPlaces]
    split
    · exact ih places
    · refine List.pairwise_cons.2 ⟨?_, ih _⟩
      intro later hlater heq
      exact position_notMem_of_mem_atNewPlaces hlater (heq ▸ List.mem_cons_self)

/-- The place of every verdict is known or has a verdict. -/
theorem exists_mem_atNewPlaces (places : List Nat) (h : verdict ∈ verdicts) :
    verdict.position ∈ places ∨
      ∃ kept ∈ atNewPlaces places verdicts, kept.position = verdict.position := by
  induction verdicts generalizing places with
  | nil => cases h
  | cons first verdicts ih =>
    rw [atNewPlaces]
    split
    · next hknown =>
      rcases List.mem_cons.1 h with rfl | h
      · exact Or.inl (List.contains_iff_mem.1 hknown)
      · exact ih places h
    · rcases List.mem_cons.1 h with rfl | h
      · exact Or.inr ⟨verdict, List.mem_cons_self, rfl⟩
      · rcases ih (first.position :: places) h with hplace | ⟨kept, hkept, hplace⟩
        · rcases List.mem_cons.1 hplace with hplace | hplace
          · exact Or.inr ⟨first, List.mem_cons_self, hplace.symm⟩
          · exact Or.inl hplace
        · exact Or.inr ⟨kept, List.mem_cons_of_mem _ hkept, hplace⟩

/-- The verdicts on the markup of a doc comment are apart. -/
theorem KeepsPlaces.pairwise_apart_markupVerdicts (h : doc.KeepsPlaces) :
    doc.markupVerdicts.Pairwise Verdict.Apart := by
  refine List.pairwise_append.2 ⟨?_, ?_, ?_⟩
  · refine List.pairwise_flatMap.2 ⟨fun element _ => doc.pairwise_apart_elementVerdicts element, ?_⟩
    refine h.imp fun hlt verdict hverdict other hother => ?_
    apply Verdict.apart_of_position_lt
    rw [(exists_of_mem_elementVerdicts hverdict).1, (exists_of_mem_elementVerdicts hother).1]
    exact hlt
  · exact (pairwise_atNewPlaces _ _).imp fun hne _ _ => hne
  · intro verdict hverdict other hother hsmell _ hposition
    obtain ⟨element, helement, hverdict⟩ := List.mem_flatMap.1 hverdict
    obtain ⟨tag, -, -, rfl⟩ := exists_tag_of_mem_rawVerdicts hother
    -- The place of an element without an end tag was known to the search of the text.
    have hunclosed := isUnclosed_of_mem_elementVerdicts hverdict hsmell
    apply position_notMem_of_mem_atNewPlaces hother
    rw [← hposition, (exists_of_mem_elementVerdicts hverdict).1]
    exact List.mem_map_of_mem (List.mem_filter.2 ⟨helement, hunclosed⟩)

end DocComment

/-! ## Verdicts on declarations -/

namespace NamedTags

/-- The tags that are at fault are some of the tags, in their order. -/
theorem faults_sublist (smells : Smells) (declared earlier : List String)
    (tags : List KeyedElement) :
    ((faults smells declared earlier tags).map Prod.fst).Sublist tags := by
  induction tags generalizing earlier with
  | nil => exact List.Sublist.refl _
  | cons tag tags ih =>
    rw [faults]
    cases fault? smells declared earlier tag with
    | none => exact (ih _).cons tag
    | some smell => exact (ih _).cons_cons tag

/-- A tag is reported for one fault only, and what is missing is no tag. -/
theorem pairwise_apart_reconcile {smells : Smells} (hsmells : smells.IsFamily) (tagName : String)
    {doc : DocComment} (hdoc : doc.KeepsPlaces) (declared : List String) (anchorOf : String → Nat) :
    (reconcile smells tagName doc declared anchorOf).Pairwise Verdict.Apart := by
  have hmissing : ∀ other ∈ (missingNames declared (doc.namedElements tagName)).map fun name =>
      ({ smell := smells.missing, tagName, position := anchorOf name, excerpt := name.toList,
         details := [name] } : Verdict), ∀ verdict : Verdict, verdict.Apart other := by
    intro other hother verdict
    obtain ⟨name, -, rfl⟩ := List.mem_map.1 hother
    exact Verdict.apart_of_not_isOnElement hsmells.missing
  refine List.pairwise_append.2 ⟨?_, ?_, fun verdict _ other hother => hmissing other hother verdict⟩
  · refine hdoc.pairwise_apart_map (fun fault => fault.1.element) ?_ fun _ => rfl
    have htags := (faults_sublist smells declared [] (doc.namedElements tagName)).map
      KeyedElement.element
    rw [List.map_map] at htags
    exact htags.trans (DocComment.keyedBy_sublist _ _)
  · exact List.pairwise_of_forall_mem_list fun verdict _ other hother => hmissing other hother verdict

theorem pairwise_apart_check {smells : Smells} (hsmells : smells.IsFamily) (tagName : String)
    (declared? : Option (List DeclaredName)) {declaration : Declaration}
    (hdoc : ∀ doc, declaration.doc = some doc → doc.KeepsPlaces) :
    (check smells tagName declared? declaration).Pairwise Verdict.Apart := by
  unfold check
  split
  · next doc hsome => exact pairwise_apart_reconcile hsmells tagName (hdoc doc hsome) _ _
  · exact List.Pairwise.nil

end NamedTags

namespace Declaration

variable {declaration : Declaration}

theorem pairwise_apart_summaryVerdicts (doc : DocComment) :
    (summaryVerdicts doc).Pairwise Verdict.Apart := by
  unfold summaryVerdicts
  split
  · exact List.pairwise_singleton _ _
  · split
    · exact List.Pairwise.nil
    · exact List.pairwise_singleton _ _

/-- At most one thing is said about documentation and summary. -/
theorem pairwise_apart_documentationVerdicts (options : Options) (source : List Char)
    (declaration : Declaration) :
    (declaration.documentationVerdicts options source).Pairwise Verdict.Apart := by
  unfold documentationVerdicts
  split
  · exact List.Pairwise.nil
  · split
    · exact List.pairwise_singleton _ _
    · split
      · exact pairwise_apart_summaryVerdicts _
      · exact List.Pairwise.nil

/-- Nothing that is wrong with the first tag is that it is repeated. -/
theorem smell_ne_of_returnsVerdict? {source : List Char} {doc : DocComment} {shape : ReturnShape}
    {first? : Option Element} {verdict : Verdict}
    (h : returnsVerdict? source declaration doc shape first? = some verdict) :
    verdict.smell ≠ .duplicateReturnsTag := by
  unfold returnsVerdict? at h
  split at h
  · rw [← Option.some.inj h]
    exact fun hsmell => by cases hsmell
  · cases h
  · rw [← Option.some.inj h]
    exact fun hsmell => by cases hsmell
  · split at h
    · cases h
    · rw [← Option.some.inj h]
      exact fun hsmell => by cases hsmell

/-- The first tag is reported for other faults than the later ones. -/
theorem pairwise_apart_returnsVerdicts (source : List Char)
    (hdoc : ∀ doc, declaration.doc = some doc → doc.KeepsPlaces) :
    (declaration.returnsVerdicts source).Pairwise Verdict.Apart := by
  unfold returnsVerdicts
  split
  · next shape doc _ hsome =>
    -- The later tags come first, then the one thing that is said about the first tag.
    refine List.pairwise_append.2 ⟨?_, pairwise_toList _, ?_⟩
    · refine (hdoc doc hsome).pairwise_apart_map id ?_ fun _ => rfl
      rw [List.map_id]
      exact (List.drop_sublist 1 _).trans (DocComment.elementsNamed_sublist _)
    · intro verdict hverdict other hother
      obtain ⟨element, -, rfl⟩ := List.mem_map.1 hverdict
      exact Verdict.apart_of_smell_ne
        (smell_ne_of_returnsVerdict? (Option.mem_toList.1 hother)).symm
  · exact List.Pairwise.nil

theorem pairwise_apart_exceptionVerdicts (source : List Char)
    (hdoc : ∀ doc, declaration.doc = some doc → doc.KeepsPlaces) :
    (declaration.exceptionVerdicts source).Pairwise Verdict.Apart := by
  refine List.pairwise_append.2 ⟨?_, pairwise_toList _, ?_⟩
  · cases hsome : declaration.doc with
    | none => exact List.Pairwise.nil
    | some doc =>
      have htags : ((doc.targetedElements exceptionTag).map (·.element)).Sublist doc.elements :=
        DocComment.keyedBy_sublist Tag.target? exceptionTag
      refine List.pairwise_append.2 ⟨?_, ?_, ?_⟩
      · refine (hdoc doc hsome).pairwise_apart_map KeyedElement.element ?_ fun _ => rfl
        exact ((repeated_sublist _ _).map _).trans htags
      · refine (hdoc doc hsome).pairwise_apart_map KeyedElement.element ?_ fun _ => rfl
        exact (List.filter_sublist.map _).trans htags
      · -- A tag may be repeated and empty, which are two different complaints.
        intro verdict hverdict other hother
        obtain ⟨tag, -, rfl⟩ := List.mem_map.1 hverdict
        obtain ⟨later, -, rfl⟩ := List.mem_map.1 hother
        exact Verdict.apart_of_smell_ne (by simp [Verdict.ofElement])
  · intro verdict _ other hother
    obtain ⟨rethrow, -, rfl⟩ := Option.map_eq_some_iff.1 (Option.mem_toList.1 hother)
    exact Verdict.apart_of_not_isOnElement rfl

theorem pairwise_apart_memberTagVerdicts
    (hdoc : ∀ doc, declaration.doc = some doc → doc.KeepsPlaces) :
    declaration.memberTagVerdicts.Pairwise Verdict.Apart := by
  unfold memberTagVerdicts
  split
  · exact List.Pairwise.nil
  · next doc hsome =>
    refine (hdoc doc hsome).pairwise_apart_map id ?_ fun _ => rfl
    rw [List.map_id]
    exact List.filter_sublist.trans DocComment.topLevel_sublist

end Declaration

/-! ## Verdicts of all detectors -/

namespace Detector

/-- The verdicts of a detector on a declaration; the markup of doc comments is checked whether or not
they document one. -/
def verdictsOn (options : Options) (source : List Char) (declaration : Declaration) :
    Detector → List Verdict
  | wellFormed => []
  | basic => declaration.documentationVerdicts options source
  | param => declaration.paramVerdicts
  | typeParam => declaration.typeParamVerdicts
  | returns => declaration.returnsVerdicts source
  | exception => declaration.exceptionVerdicts source
  | memberTags => declaration.memberTagVerdicts

variable {options : Options} {detector : Detector}

/-- Every detector but one goes through the declarations. -/
theorem verdicts_eq_flatMap (file : Code.SourceFile) (h : detector ≠ wellFormed) :
    detector.verdicts options file =
      file.declarations.flatMap (detector.verdictsOn options file.text) := by
  cases detector with
  | wellFormed => exact absurd rfl h
  | _ => rfl

/-- What a detector reports of a declaration. -/
def contribution (detector : Detector) (options : Options) (path : String) (source : List Char)
    (declaration : Declaration) : List Finding :=
  (detector.verdictsOn options source declaration).map (Finding.ofVerdict path source)

/-- It reports of one declaration after the other. -/
theorem findings_eq_flatMap (file : Code.SourceFile) (options : Options) (path : String)
    (h : detector ≠ wellFormed) : detector.findings options path file =
      file.declarations.flatMap (detector.contribution options path file.text) := by
  rw [findings, verdicts_eq_flatMap file h, List.map_flatMap]
  rfl

variable {source : List Char} {declaration : Declaration}

theorem mem_verdicts_of_mem_verdictsOn {verdict : Verdict}
    (h : verdict ∈ detector.verdictsOn options source declaration) :
    verdict ∈ declaration.verdicts options source := by
  simp only [Declaration.verdicts, List.mem_append]
  cases detector with
  | wellFormed => cases h
  | _ =>
    rw [verdictsOn] at h
    simp only [h, true_or, or_true]

/-- The verdicts of a detector on a declaration are apart. -/
theorem pairwise_apart_verdictsOn (hdoc : ∀ doc, declaration.doc = some doc → doc.KeepsPlaces) :
    (detector.verdictsOn options source declaration).Pairwise Verdict.Apart := by
  cases detector with
  | wellFormed => exact List.Pairwise.nil
  | basic => exact declaration.pairwise_apart_documentationVerdicts options source
  | param => exact NamedTags.pairwise_apart_check NamedTags.isFamily_paramSmells _ _ hdoc
  | typeParam => exact NamedTags.pairwise_apart_check NamedTags.isFamily_typeParamSmells _ _ hdoc
  | returns => exact Declaration.pairwise_apart_returnsVerdicts source hdoc
  | exception => exact Declaration.pairwise_apart_exceptionVerdicts source hdoc
  | memberTags => exact Declaration.pairwise_apart_memberTagVerdicts hdoc

end Detector
end DocAudit

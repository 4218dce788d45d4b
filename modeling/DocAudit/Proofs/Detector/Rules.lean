import DocAudit.Proofs.Detector.Elements
import Mathlib.Data.List.Nodup

/-!
# Which detector reports what

Every smell is the business of one detector, and of no other: a rule id in a report tells the detector
that reported it.

* `Smell.detector`: the detector of a smell;
* `Detector.detector_of_mem_verdicts`: no other detector reports it;
* `Smell.id_injective`: a rule id tells the smell.
-/

namespace DocAudit

/-- The detector whose business a smell is. -/
def Smell.detector : Smell → Detector
  | unknownTag | missingEndTag | paramMissingName | paramRefNotEmpty | typeParamMissingName
  | typeParamRefNotEmpty | exceptionMissingCref => .wellFormed
  | missingDocumentation | missingSummary | emptySummary => .basic
  | missingParamTag | emptyParamDescription | unknownParamTag | duplicateParamTag => .param
  | missingTypeParamTag | emptyTypeParamDescription | unknownTypeParamTag
  | duplicateTypeParamTag => .typeParam
  | missingReturns | emptyReturns | returnsOnVoidMember | duplicateReturnsTag => .returns
  | emptyExceptionDescription | duplicateExceptionTag | rethrowCannotInferException => .exception
  | invalidTagOnMember => .memberTags

theorem Smell.mem_all (smell : Smell) : smell ∈ Smell.all := by
  cases smell <;> decide

/-- A rule id tells the smell. -/
theorem Smell.id_injective : Function.Injective Smell.id := by
  intro smell other h
  -- The ids are different from one another, in the list of all smells.
  have hnodup : (Smell.all.map Smell.id).Nodup := by decide +kernel
  exact List.inj_on_of_nodup_map hnodup smell.mem_all other.mem_all h

variable {verdict : Verdict}

/-! ## Verdicts on the markup -/

namespace DocComment

variable {doc : DocComment}

theorem detector_of_formFault? {element : Markup.Element} {smell : Smell}
    (h : formFault? element = some smell) : smell.detector = .wellFormed := by
  unfold formFault? at h
  split at h
  all_goals
    first
      | cases h
      | (split at h <;> cases h; rfl)

theorem detector_of_mem_elementVerdicts {element : Markup.Element}
    (h : verdict ∈ doc.elementVerdicts element) : verdict.smell.detector = .wellFormed := by
  rcases (exists_of_mem_elementVerdicts h).2 with hsmell | ⟨hsmell, -⟩ | hsmell
  · rw [hsmell]
    rfl
  · rw [hsmell]
    rfl
  · exact detector_of_formFault? hsmell

theorem detector_of_mem_markupVerdicts (h : verdict ∈ doc.markupVerdicts) :
    verdict.smell.detector = .wellFormed := by
  rcases List.mem_append.1 h with h | h
  · obtain ⟨element, -, h⟩ := List.mem_flatMap.1 h
    exact detector_of_mem_elementVerdicts h
  · obtain ⟨tag, -, -, rfl⟩ := exists_tag_of_mem_rawVerdicts h
    rfl

end DocComment

/-! ## Verdicts on declarations -/

namespace NamedTags

/-- All smells of a family are the business of one detector. -/
structure Smells.AreOf (smells : Smells) (detector : Detector) : Prop where
  /-- A missing tag. -/
  missing : smells.missing.detector = detector
  /-- An empty tag. -/
  empty : smells.empty.detector = detector
  /-- An unknown tag. -/
  unknown : smells.unknown.detector = detector
  /-- A duplicate. -/
  duplicate : smells.duplicate.detector = detector

theorem detector_of_fault? {smells : Smells} {detector : Detector}
    (hsmells : smells.AreOf detector) {declared earlier : List String} {tag : KeyedElement}
    {smell : Smell} (h : fault? smells declared earlier tag = some smell) :
    smell.detector = detector := by
  unfold fault? at h
  split at h
  · exact Option.some.inj h ▸ hsmells.unknown
  · split at h
    · exact Option.some.inj h ▸ hsmells.duplicate
    · split at h
      · exact Option.some.inj h ▸ hsmells.empty
      · cases h

theorem detector_of_mem_check {smells : Smells} {detector : Detector}
    (hsmells : smells.AreOf detector) {tagName : String} {declared? : Option (List DeclaredName)}
    {declaration : Declaration} (h : verdict ∈ check smells tagName declared? declaration) :
    verdict.smell.detector = detector := by
  unfold check at h
  split at h
  · rcases List.mem_append.1 h with h | h
    · obtain ⟨⟨tag, smell⟩, hfault, rfl⟩ := List.mem_map.1 h
      obtain ⟨-, before, hfault⟩ := exists_fault?_of_mem_faults hfault
      exact detector_of_fault? hsmells hfault
    · obtain ⟨name, -, rfl⟩ := List.mem_map.1 h
      exact hsmells.missing
  · cases h

end NamedTags

namespace Declaration

variable {declaration : Declaration} {source : List Char}

theorem detector_of_mem_documentationVerdicts {options : Options}
    (h : verdict ∈ declaration.documentationVerdicts options source) :
    verdict.smell.detector = .basic := by
  unfold documentationVerdicts summaryVerdicts at h
  split at h
  · cases h
  · split at h
    · obtain rfl := List.mem_singleton.1 h
      rfl
    · split at h
      · split at h
        · obtain rfl := List.mem_singleton.1 h
          rfl
        · split at h
          · cases h
          · obtain rfl := List.mem_singleton.1 h
            rfl
      · cases h

theorem detector_of_returnsVerdict? {doc : DocComment} {shape : ReturnShape}
    {first? : Option Markup.Element}
    (h : returnsVerdict? source declaration doc shape first? = some verdict) :
    verdict.smell.detector = .returns := by
  unfold returnsVerdict? at h
  split at h
  · obtain rfl := Option.some.inj h
    rfl
  · cases h
  · obtain rfl := Option.some.inj h
    rfl
  · split at h
    · cases h
    · obtain rfl := Option.some.inj h
      rfl

theorem detector_of_mem_returnsVerdicts (h : verdict ∈ declaration.returnsVerdicts source) :
    verdict.smell.detector = .returns := by
  unfold returnsVerdicts at h
  split at h
  · rcases List.mem_append.1 h with h | h
    · obtain ⟨element, -, rfl⟩ := List.mem_map.1 h
      rfl
    · exact detector_of_returnsVerdict? (Option.mem_toList.1 h)
  · cases h

theorem detector_of_mem_exceptionVerdicts (h : verdict ∈ declaration.exceptionVerdicts source) :
    verdict.smell.detector = .exception := by
  rcases List.mem_append.1 h with h | h
  · cases hdoc : declaration.doc with
    | none => rw [hdoc] at h; cases h
    | some doc =>
      rw [hdoc] at h
      rcases List.mem_append.1 h with h | h
      · obtain ⟨tag, -, rfl⟩ := List.mem_map.1 h
        rfl
      · obtain ⟨tag, -, rfl⟩ := List.mem_map.1 h
        rfl
  · obtain ⟨rethrow, -, rfl⟩ := Option.map_eq_some_iff.1 (Option.mem_toList.1 h)
    rfl

theorem detector_of_mem_memberTagVerdicts (h : verdict ∈ declaration.memberTagVerdicts) :
    verdict.smell.detector = .memberTags := by
  unfold memberTagVerdicts at h
  split at h
  · cases h
  · obtain ⟨element, -, rfl⟩ := List.mem_map.1 h
    rfl

end Declaration

/-! ## All detectors -/

/-- A detector reports the smells that are its business, and no others. -/
theorem Detector.detector_of_mem_verdicts {detector : Detector} {options : Options}
    {file : Code.SourceFile} (h : verdict ∈ detector.verdicts options file) :
    verdict.smell.detector = detector := by
  cases detector with
  | wellFormed =>
    obtain ⟨doc, -, h⟩ := List.mem_flatMap.1 h
    exact DocComment.detector_of_mem_markupVerdicts h
  | basic =>
    obtain ⟨declaration, -, h⟩ := List.mem_flatMap.1 h
    exact Declaration.detector_of_mem_documentationVerdicts h
  | param =>
    obtain ⟨declaration, -, h⟩ := List.mem_flatMap.1 h
    exact NamedTags.detector_of_mem_check ⟨rfl, rfl, rfl, rfl⟩ h
  | typeParam =>
    obtain ⟨declaration, -, h⟩ := List.mem_flatMap.1 h
    exact NamedTags.detector_of_mem_check ⟨rfl, rfl, rfl, rfl⟩ h
  | returns =>
    obtain ⟨declaration, -, h⟩ := List.mem_flatMap.1 h
    exact Declaration.detector_of_mem_returnsVerdicts h
  | exception =>
    obtain ⟨declaration, -, h⟩ := List.mem_flatMap.1 h
    exact Declaration.detector_of_mem_exceptionVerdicts h
  | memberTags =>
    obtain ⟨declaration, -, h⟩ := List.mem_flatMap.1 h
    exact Declaration.detector_of_mem_memberTagVerdicts h

end DocAudit

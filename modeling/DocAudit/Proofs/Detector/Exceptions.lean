import DocAudit.Proofs.Detector.Apart
import Mathlib.Data.Finset.Card

/-!
# Documented exceptions

The tags for exceptions are gone through with the targets seen so far at hand, and once more for
their contents. What comes out is told by the list of the tags alone: a tag is a repetition if one in
front of it has the same target, written in the same way, and whether it is empty has nothing to do
with that.

* `Declaration.repeated_eq_filterMap`: the repeated tags by their indices, without the pass;
* `Declaration.countP_repeated`: how often a target is repeated;
* `Declaration.card_sdiff_add_length_repeated`: the targets and the repetitions are all tags;
* `Code.SourceFile.countsExceptions`: what is reported of the exceptions of a file.
-/

namespace DocAudit

open Code Text

namespace Declaration

/-! ## Tags in document order -/

/-- Whether a tag is a repetition is seen from the tags in front of it. -/
theorem repeated_eq_filterMap (earlier : List String) (tags : List KeyedElement) :
    repeated earlier tags = tags.zipIdx.filterMap fun (tag, i) =>
      if tag.key ∈ earlier ++ (tags.take i).map (·.key) then some tag else none := by
  induction tags generalizing earlier with
  | nil => rfl
  | cons tag tags ih =>
    -- Behind the first tag every index is one more, and the first tag is one of those in front.
    rw [repeated, ih, List.zipIdx_cons, List.filterMap_cons, List.zipIdx_succ, List.filterMap_map]
    by_cases h : tag.key ∈ earlier <;> simp [h]

/-- A target that occurs is repeated by every tag for it but the first, or by every one if it was seen
before. -/
theorem countP_repeated (earlier : List String) (tags : List KeyedElement) (target : String) :
    (repeated earlier tags).countP (·.key = target) =
      if target ∈ earlier then (tags.map (·.key)).count target
      else (tags.map (·.key)).count target - 1 := by
  induction tags generalizing earlier with
  | nil => simp [repeated]
  | cons tag tags ih =>
    rw [repeated, List.countP_append, ih, List.map_cons, List.count_cons]
    -- A first tag for the target is no repetition, and makes one of every later tag for it.
    by_cases hkey : tag.key = target
    · subst hkey
      by_cases hearlier : tag.key ∈ earlier <;> simp [hearlier, Nat.add_comm]
    · have hne : ¬target = tag.key := fun h => hkey h.symm
      by_cases hearlier : tag.key ∈ earlier <;> simp [hearlier, hkey, hne]

/-- A blank makes another target. -/
example (element : Markup.Element) :
    repeated [] [⟨"T", element⟩, ⟨" T", element⟩, ⟨"T", element⟩] = [⟨"T", element⟩] := by
  rfl

/-- The targets that were not seen before and the repetitions are as many as the tags. -/
theorem card_sdiff_add_length_repeated (earlier : List String) (tags : List KeyedElement) :
    ((tags.map (·.key)).toFinset \ earlier.toFinset).card + (repeated earlier tags).length =
      tags.length := by
  induction tags generalizing earlier with
  | nil => simp [repeated]
  | cons tag tags ih =>
    have hseen : (earlier ++ [tag.key]).toFinset = insert tag.key earlier.toFinset := by
      ext target
      simp
    have hrest := ih (earlier ++ [tag.key])
    rw [hseen] at hrest
    rw [repeated, List.length_append, List.map_cons, List.toFinset_cons, List.length_cons, ← hrest]
    by_cases hearlier : tag.key ∈ earlier
    · -- The target was seen, and the tag is a repetition.
      have hmem : tag.key ∈ earlier.toFinset := List.mem_toFinset.2 hearlier
      rw [Finset.insert_sdiff_of_mem _ hmem, Finset.insert_eq_of_mem hmem,
        if_pos (List.contains_iff_mem.2 hearlier), List.length_singleton]
      omega
    · -- The target is new, and seen from now on.
      have hnotMem : tag.key ∉ earlier.toFinset := fun h => hearlier (List.mem_toFinset.1 h)
      have hnew : insert tag.key (tags.map (·.key)).toFinset \ earlier.toFinset =
          insert tag.key ((tags.map (·.key)).toFinset \ insert tag.key earlier.toFinset) := by
        ext target
        simp only [Finset.mem_insert, Finset.mem_sdiff]
        by_cases h : target = tag.key
        · simp [h, hnotMem]
        · simp [h]
      rw [hnew, Finset.card_insert_of_notMem (by simp), if_neg (by simpa using hearlier),
        List.length_nil]
      omega

end Declaration

/-! ## What is reported of one declaration -/

namespace DocComment

variable (doc : DocComment)

/-- The tags of the comment that document an exception, in document order. -/
def exceptionTags : List KeyedElement :=
  doc.targetedElements "exception"

/-- Those of them whose target a tag in front of them has, written in the same way. -/
def repeatedExceptionTags : List KeyedElement :=
  doc.exceptionTags.zipIdx.filterMap fun (tag, i) =>
    if tag.key ∈ (doc.exceptionTags.take i).map (·.key) then some tag else none

/-- The verdicts on repeated tags. -/
def duplicateExceptionVerdicts : List Verdict :=
  doc.repeatedExceptionTags.map fun tag =>
    .ofElement doc tag.element .duplicateExceptionTag [tag.key]

/-- The verdicts on tags without content, be they repeated or not. -/
def emptyExceptionVerdicts : List Verdict :=
  (doc.exceptionTags.filter fun tag => !tag.element.isMeaningful).map fun tag =>
    .ofElement doc tag.element .emptyExceptionDescription [tag.key]

/-- The report on the exceptions that are documented by a comment counts their tags. -/
structure CountsExceptions (path : String) (source : List Char) (findings : List Finding) :
    Prop where
  /-- The tags are the elements at any depth that refer to an exception, -/
  element_eq : doc.exceptionTags.map (·.element) = doc.elements.filter fun element =>
    element.tag.name == "exception" && (element.tag.attribute? "cref").any fun target =>
      target.toList.any (!isBlankChar ·)
  /-- each with its target as it is written. -/
  target_eq : ∀ tag ∈ doc.exceptionTags, tag.element.tag.attribute? "cref" = some tag.key
  /-- Repeated tags are reported first, and then those without content. -/
  findings_eq : findings =
    (doc.duplicateExceptionVerdicts ++ doc.emptyExceptionVerdicts).map
      (Finding.ofVerdict path source)
  /-- All tags for a target but one are reported as duplicates. -/
  duplicates : ∀ target, findings.countP
      (fun finding => finding.smell = .duplicateExceptionTag ∧ finding.details = [target]) =
    (doc.exceptionTags.map (·.key)).count target - 1
  /-- The targets and the duplicates are as many as the tags. -/
  card_add_duplicates : (doc.exceptionTags.map (·.key)).toFinset.card +
      findings.countP (·.smell = .duplicateExceptionTag) =
    doc.exceptionTags.length

/-- The tags that document an exception are those whose target is not blank. -/
theorem map_element_exceptionTags :
    doc.exceptionTags.map (·.element) = doc.elements.filter fun element =>
      element.tag.name == "exception" && (element.tag.attribute? "cref").any fun target =>
        target.toList.any (!isBlankChar ·) := by
  rw [exceptionTags, targetedElements, map_element_keyedBy, elementsNamed, List.filter_filter]
  refine List.filter_congr fun element _ => ?_
  rw [Bool.and_comm, Markup.Tag.target?, Option.isSome_filter]
  simp only [isBlank, List.not_all_eq_any_not]

theorem attribute?_of_mem_exceptionTags {tag : KeyedElement} (h : tag ∈ doc.exceptionTags) :
    tag.element.tag.attribute? "cref" = some tag.key :=
  (Option.filter_eq_some_iff.1 (key?_of_mem_keyedBy h)).1

theorem repeated_exceptionTags :
    Declaration.repeated [] doc.exceptionTags = doc.repeatedExceptionTags :=
  Declaration.repeated_eq_filterMap [] doc.exceptionTags

/-- The check of the tags finds the repetitions and what is empty. -/
theorem exceptionTagVerdicts_eq :
    Declaration.exceptionTagVerdicts doc =
      doc.duplicateExceptionVerdicts ++ doc.emptyExceptionVerdicts := by
  rw [duplicateExceptionVerdicts, ← repeated_exceptionTags]
  rfl

/-- Verdicts on duplicates are counted by the repeated tags; those on empty tags are no duplicates. -/
theorem countP_exceptionTagVerdicts {p : Verdict → Bool}
    (hp : ∀ verdict, p verdict = true → verdict.smell = .duplicateExceptionTag) :
    (Declaration.exceptionTagVerdicts doc).countP p =
      (Declaration.repeated [] doc.exceptionTags).countP fun tag =>
        p (.ofElement doc tag.element .duplicateExceptionTag [tag.key]) := by
  have hempty : doc.emptyExceptionVerdicts.countP p = 0 := by
    rw [List.countP_eq_zero]
    intro verdict hverdict hsmell
    obtain ⟨tag, -, rfl⟩ := List.mem_map.1 hverdict
    cases hp _ hsmell
  rw [exceptionTagVerdicts_eq, List.countP_append, hempty, Nat.add_zero, duplicateExceptionVerdicts,
    List.countP_map, ← repeated_exceptionTags]
  rfl

theorem countsExceptions_exceptionTagVerdicts (path : String) (source : List Char) :
    doc.CountsExceptions path source
      ((Declaration.exceptionTagVerdicts doc).map (Finding.ofVerdict path source)) where
  element_eq := doc.map_element_exceptionTags
  target_eq _ htag := doc.attribute?_of_mem_exceptionTags htag
  findings_eq := by rw [exceptionTagVerdicts_eq]
  duplicates := by
    intro target
    have hcount := Declaration.countP_repeated [] doc.exceptionTags target
    rw [if_neg List.not_mem_nil] at hcount
    rw [← hcount, List.countP_map, countP_exceptionTagVerdicts]
    · simp [Finding.ofVerdict, Verdict.ofElement]
    · exact fun verdict h => (of_decide_eq_true h).1
  card_add_duplicates := by
    have hcard := Declaration.card_sdiff_add_length_repeated [] doc.exceptionTags
    rw [List.toFinset_nil, Finset.sdiff_empty] at hcard
    rw [← hcard, List.countP_map, countP_exceptionTagVerdicts]
    · congr 1
      exact List.countP_eq_length.2 fun tag _ => rfl
    · exact fun verdict h => of_decide_eq_true h

end DocComment

/-- Without the verdict on a bare throw, the verdicts on exceptions are those on the comment. -/
theorem Declaration.filter_exceptionVerdicts (source : List Char) (declaration : Declaration) :
    (declaration.exceptionVerdicts source).filter (·.smell != .rethrowCannotInferException) =
      (declaration.doc.map exceptionTagVerdicts).getD [] := by
  have hthrow : (rethrowVerdict? source declaration).toList.filter
      (·.smell != .rethrowCannotInferException) = [] := by
    rw [List.filter_eq_nil_iff]
    intro verdict hverdict
    obtain ⟨rethrow, -, rfl⟩ := Option.map_eq_some_iff.1 (Option.mem_toList.1 hverdict)
    exact fun hsmell => by cases hsmell
  rw [exceptionVerdicts, List.filter_append, hthrow, List.append_nil, List.filter_eq_self]
  intro verdict hverdict
  cases hdoc : declaration.doc with
  | none =>
    rw [hdoc] at hverdict
    cases hverdict
  | some doc =>
    rw [hdoc, Option.map_some, Option.getD_some] at hverdict
    rcases List.mem_append.1 hverdict with hverdict | hverdict <;>
      obtain ⟨tag, -, rfl⟩ := List.mem_map.1 hverdict <;> rfl

/-! ## What is reported of a file -/

namespace Code.SourceFile

/-- The exceptions that the declarations of a file document are counted. -/
structure CountsExceptions (file : SourceFile) (options : Options) (path : String) : Prop where
  /-- The detector reports of one declaration after the other. -/
  findings_eq : Detector.exception.findings options path file =
    file.declarations.flatMap (Detector.exception.contribution options path file.text)
  /-- What is reported of a documented declaration of any kind counts the tags of its comment, bare
  throws aside. -/
  documented : ∀ declaration ∈ file.declarations, ∀ doc, declaration.doc = some doc →
    doc.CountsExceptions path file.text
      ((Detector.exception.contribution options path file.text declaration).filter
        (·.smell != .rethrowCannotInferException))
  /-- Nothing but a bare throw is reported of a declaration that is not documented. -/
  undocumented : ∀ declaration ∈ file.declarations, declaration.doc = none →
    (Detector.exception.contribution options path file.text declaration).filter
      (·.smell != .rethrowCannotInferException) = []

variable {file : SourceFile} {options : Options} {path : String}

theorem filter_contribution_exception (declaration : Declaration) :
    (Detector.exception.contribution options path file.text declaration).filter
        (·.smell != .rethrowCannotInferException) =
      ((declaration.doc.map Declaration.exceptionTagVerdicts).getD []).map
        (Finding.ofVerdict path file.text) := by
  rw [← Declaration.filter_exceptionVerdicts file.text declaration, Detector.contribution,
    List.filter_map]
  rfl

/-- The exceptions that are documented in a file are counted, one declaration after the other. -/
theorem countsExceptions (file : SourceFile) (options : Options) (path : String) :
    file.CountsExceptions options path where
  findings_eq := Detector.findings_eq_flatMap file options path nofun
  documented declaration _ doc hdoc := by
    rw [filter_contribution_exception, hdoc]
    exact doc.countsExceptions_exceptionTagVerdicts path file.text
  undocumented declaration _ hdoc := by
    rw [filter_contribution_exception, hdoc]
    rfl

end Code.SourceFile
end DocAudit

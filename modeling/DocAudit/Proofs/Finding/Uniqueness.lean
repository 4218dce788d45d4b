import DocAudit.Proofs.Detector.Apart
import DocAudit.Proofs.Detector.Rules
import DocAudit.Proofs.Finding.Places
import DocAudit.Proofs.Markup.Nesting
import Mathlib.Data.List.Nodup

/-!
# No element is reported twice

An element is reported under a rule at most once. Its place in the markup is its own, and stays so on
the way through the source to a line and a column; doc comments do not overlap, and no two
declarations share one; and each rule is the business of one detector.

* `DocComment.KeepsPlaces.of_liesIn`: the elements of a doc comment have places of their own;
* `Code.SourceFile.pairwise_apart_verdicts`: the verdicts of a detector are apart;
* `Code.SourceFile.nodup_elementReports`: no element is reported twice under a rule, and one without an
  end tag once.
-/

namespace DocAudit

open Markup Text

namespace DocComment

/-- A container without an end tag starts at the offset: as an element of the forest, or as a start tag
of the text. -/
def IsUnclosedAt (doc : DocComment) (offset : Nat) : Prop :=
  (∃ element ∈ doc.elements, element.tag.span.start = offset ∧ isUnclosed element = true) ∨
    ∃ tag ∈ RawTag.all 0 doc.markup, tag.start = offset ∧ tag.isUnclosed = true

/-- What has no end tag is reported for it. -/
theorem exists_verdict_of_isUnclosedAt {doc : DocComment} {offset : Nat}
    (h : doc.IsUnclosedAt offset) :
    ∃ verdict ∈ doc.markupVerdicts, verdict.smell = .missingEndTag ∧
      verdict.position = doc.sourceOffset offset := by
  have helement {element : Element} (hmem : element ∈ doc.elements)
      (hunclosed : isUnclosed element = true) :
      ∃ verdict ∈ doc.markupVerdicts, verdict.smell = .missingEndTag ∧
        verdict.position = doc.positionOf element := by
    refine ⟨.ofElement doc element .missingEndTag [element.tag.name], ?_, rfl, rfl⟩
    refine List.mem_append_left _ (List.mem_flatMap.2 ⟨element, hmem, ?_⟩)
    simp [elementVerdicts, hunclosed]
  rcases h with ⟨element, hmem, rfl, hunclosed⟩ | ⟨tag, hmem, rfl, hunclosed⟩
  · exact helement hmem hunclosed
  · -- The start tag is reported for itself, or its place is that of an element.
    have hraw : doc.rawVerdict tag ∈
        ((RawTag.all 0 doc.markup).filter RawTag.isUnclosed).map doc.rawVerdict :=
      List.mem_map_of_mem (List.mem_filter.2 ⟨hmem, hunclosed⟩)
    rcases exists_mem_atNewPlaces doc.unclosedPositions hraw with hplace | ⟨kept, hkept, hplace⟩
    · obtain ⟨element, hfound, hposition⟩ := List.mem_map.1 hplace
      obtain ⟨hmem, hunclosed⟩ := List.mem_filter.1 hfound
      obtain ⟨verdict, hverdict, hsmell, hat⟩ := helement hmem hunclosed
      exact ⟨verdict, hverdict, hsmell, hat.trans hposition⟩
    · refine ⟨kept, List.mem_append_right _ hkept, ?_, hplace⟩
      obtain ⟨keptTag, -, -, rfl⟩ := exists_tag_of_mem_rawVerdicts hkept
      rfl

/-- The elements of a doc comment have places of their own, when its lines lie in a source. -/
theorem KeepsPlaces.of_liesIn {source : List Char} {doc : DocComment}
    (h : Comment.LiesIn source doc.start doc.stop doc.lines)
    (hmark : doc.markup.head? ≠ some '\uFEFF') : doc.KeepsPlaces := by
  have hstarts := (Forest.areNested_nodes hmark).pairwise_start
  have helements : doc.elements = Node.elementsOfAll (Forest.read doc.markup).nodes := by
    rw [DocComment.elements, doc.forest_eq]
    rfl
  rw [← helements] at hstarts
  refine hstarts.imp_of_mem ?_
  intro element later helement _ hlt
  rw [DocComment.elements, doc.forest_eq] at helement
  have hstands : StandsAt '<' element.tag.span.start doc.markup :=
    Forest.standsAt_start helement hmark
  exact h.sourceOffset_lt doc.start (by decide) hstands hlt

end DocComment

namespace Code.SourceFile

variable {file : SourceFile}

/-- The doc comments of different declarations follow one another. -/
theorem pairwise_docs (hfile : file.IsWellFormed) :
    file.declarations.Pairwise fun declaration later => ∀ doc, declaration.doc = some doc →
      ∀ laterDoc, later.doc = some laterDoc → doc.stop ≤ laterDoc.start := by
  have hdocs := (pairwise_docComments hfile.isTree hfile.not_isComment_root).sublist
    (docs_sublist_docComments hfile.isTree)
  rw [List.pairwise_filterMap] at hdocs
  exact hdocs.imp fun hapart doc hdoc laterDoc hlaterDoc => (hapart doc hdoc laterDoc hlaterDoc).2

section Places

variable (hfile : file.IsWellFormed)
  (hmark : ∀ doc ∈ file.docComments, doc.markup.head? ≠ some '\uFEFF')
include hfile hmark

/-- The elements of a doc comment of a file have places of their own. -/
theorem keepsPlaces {doc : DocComment} (hdoc : doc ∈ file.docComments) : doc.KeepsPlaces :=
  .of_liesIn (liesIn_docComment hfile hdoc) (hmark doc hdoc)

/-- A verdict on a tag is at a `<` of the source, inside of the doc comment. -/
theorem standsAt_of_isOnTag {doc : DocComment} (hdoc : doc ∈ file.docComments) {verdict : Verdict}
    (htag : verdict.IsOnTag doc) :
    StandsAt '<' verdict.position file.text ∧ doc.start ≤ verdict.position ∧
      verdict.position < doc.stop := by
  obtain ⟨offset, hstands, hposition⟩ := htag.exists_standsAt (hmark doc hdoc)
  rw [hposition]
  exact (liesIn_docComment hfile hdoc).standsAt_sourceOffset doc.start (by decide) hstands

/-- Verdicts on tags of doc comments that follow one another are apart. -/
theorem apart_of_isOnTag {doc later : DocComment} (hdoc : doc ∈ file.docComments)
    (hlater : later ∈ file.docComments) (hle : doc.stop ≤ later.start) {verdict other : Verdict}
    (hverdict : verdict.smell.isOnElement = true → verdict.IsOnTag doc)
    (hother : other.smell.isOnElement = true → other.IsOnTag later) : verdict.Apart other := by
  intro hsmell hon
  have hfirst := (standsAt_of_isOnTag hfile hmark hdoc (hverdict hon)).2.2
  have hsecond := (standsAt_of_isOnTag hfile hmark hlater (hother (hsmell ▸ hon))).2.1
  omega

/-- The verdicts of a detector are apart. -/
theorem pairwise_apart_verdicts (options : Options) (detector : Detector) :
    (detector.verdicts options file).Pairwise Verdict.Apart := by
  by_cases hdetector : detector = .wellFormed
  · subst hdetector
    -- Within a doc comment the elements have places of their own, and doc comments do not overlap.
    refine List.pairwise_flatMap.2 ⟨?_, ?_⟩
    · intro doc hdoc
      exact (keepsPlaces hfile hmark hdoc).pairwise_apart_markupVerdicts
    · refine (pairwise_docComments hfile.isTree hfile.not_isComment_root).imp_of_mem ?_
      intro doc later hdoc hlater hapart verdict hverdict other hother
      exact apart_of_isOnTag hfile hmark hdoc hlater hapart.2
        (fun _ => DocComment.isOnTag_of_mem_markupVerdicts hverdict)
        (fun _ => DocComment.isOnTag_of_mem_markupVerdicts hother)
  · rw [Detector.verdicts_eq_flatMap file hdetector]
    have hmem {declaration : Declaration} (hdeclaration : declaration ∈ file.declarations)
        {doc : DocComment} (hdoc : declaration.doc = some doc) : doc ∈ file.docComments :=
      mem_docComments_of_doc hfile.isTree hdeclaration hdoc
    refine List.pairwise_flatMap.2 ⟨?_, ?_⟩
    · intro declaration hdeclaration
      apply Detector.pairwise_apart_verdictsOn
      exact fun doc hdoc => keepsPlaces hfile hmark (hmem hdeclaration hdoc)
    · refine (pairwise_docs hfile).imp_of_mem ?_
      intro declaration later hdeclaration hlater hapart verdict hverdict other hother hsmell hon
      -- Each of the two is about an element of the declaration's own doc comment.
      obtain ⟨doc, hdoc, habout⟩ := Declaration.exists_isAbout_of_mem_verdicts
        (Detector.mem_verdicts_of_mem_verdictsOn hverdict) hon
      obtain ⟨laterDoc, hlaterDoc, hlaterAbout⟩ := Declaration.exists_isAbout_of_mem_verdicts
        (Detector.mem_verdicts_of_mem_verdictsOn hother) (hsmell ▸ hon)
      exact apart_of_isOnTag hfile hmark (hmem hdeclaration hdoc) (hmem hlater hlaterDoc)
        (hapart doc hdoc laterDoc hlaterDoc) (fun _ => Or.inl habout) (fun _ => Or.inl hlaterAbout)
        hsmell hon

/-- A verdict with a smell of elements is at a `<` of the source. -/
theorem standsAt_of_mem_verdicts {options : Options} {verdict : Verdict}
    (h : verdict ∈ Detector.all.flatMap (·.verdicts options file))
    (hsmell : verdict.smell.isOnElement = true) : StandsAt '<' verdict.position file.text := by
  obtain ⟨detector, -, hverdict⟩ := List.mem_flatMap.1 h
  obtain ⟨doc, hdoc, htag⟩ := exists_isOnTag_of_mem_verdicts hfile.isTree hverdict hsmell
  exact (standsAt_of_isOnTag hfile hmark hdoc htag).1

/-- The verdicts of all detectors are apart: no two detectors report the same smell. -/
theorem pairwise_apart_allVerdicts (options : Options) :
    (Detector.all.flatMap (·.verdicts options file)).Pairwise Verdict.Apart := by
  refine List.pairwise_flatMap.2 ⟨fun detector _ => ?_, ?_⟩
  · exact pairwise_apart_verdicts hfile hmark options detector
  · have hnodup : Detector.all.Nodup := by decide
    refine hnodup.imp fun hne verdict hverdict other hother hsmell => ?_
    -- The smell tells the detector.
    have hdetector := Detector.detector_of_mem_verdicts hverdict
    rw [hsmell, Detector.detector_of_mem_verdicts hother] at hdetector
    exact absurd hdetector.symm hne

end Places

/-! ## Reports -/

/-- The rules and places of the findings on elements. -/
def elementReports (file : SourceFile) (options : Options) (path : String) :
    List (String × Location) :=
  ((file.findings options path).filter (·.smell.isOnElement)).map fun finding =>
    (finding.ruleId, finding.location)

theorem elementReports_eq (options : Options) (path : String) :
    file.elementReports options path =
      ((Detector.all.flatMap (·.verdicts options file)).filter (·.smell.isOnElement)).map
        fun verdict => (verdict.smell.id, locate file.text verdict.position) := by
  have hfindings : file.findings options path =
      (Detector.all.flatMap (·.verdicts options file)).map (Finding.ofVerdict path file.text) := by
    rw [findings, List.map_flatMap]
    rfl
  rw [elementReports, hfindings, List.filter_map, List.map_map]
  rfl

/-- No element is reported twice under a rule: the findings on elements differ in their rule, line or
column. A start tag without an end tag, whether it was found among the elements, in the text, or both
times, is reported as such once. -/
theorem nodup_elementReports (hfile : file.IsWellFormed)
    (hmark : ∀ doc ∈ file.docComments, doc.markup.head? ≠ some '\uFEFF') (options : Options)
    (path : String) :
    (file.elementReports options path).Nodup ∧
      ∀ doc ∈ file.docComments, ∀ offset, doc.IsUnclosedAt offset →
        (file.elementReports options path).count
          (Smell.missingEndTag.id, locate file.text (doc.sourceOffset offset)) = 1 := by
  have hnodup : (file.elementReports options path).Nodup := by
    rw [elementReports_eq, List.Nodup, List.pairwise_map, List.pairwise_filter]
    refine (pairwise_apart_allVerdicts hfile hmark options).imp_of_mem ?_
    intro verdict other hverdict hother hapart hon hotherOn heq
    obtain ⟨hrule, hplace⟩ := Prod.mk.inj heq
    -- Characters at different offsets have different lines or columns.
    have hstands := standsAt_of_mem_verdicts hfile hmark hverdict hon
    have hotherStands := standsAt_of_mem_verdicts hfile hmark hother hotherOn
    rcases Nat.lt_or_gt_of_ne (hapart (Smell.id_injective hrule) hon) with hlt | hgt
    · exact (locate_before hstands hotherStands hlt).ne hplace
    · exact (locate_before hotherStands hstands hgt).ne hplace.symm
  refine ⟨hnodup, fun doc hdoc offset hunclosed => List.count_eq_one_of_mem hnodup ?_⟩
  obtain ⟨verdict, hverdict, hsmell, hposition⟩ :=
    DocComment.exists_verdict_of_isUnclosedAt hunclosed
  rw [elementReports_eq, ← hposition, ← hsmell]
  have hmem : verdict ∈ Detector.all.flatMap (·.verdicts options file) :=
    List.mem_flatMap.2 ⟨.wellFormed, by decide, List.mem_flatMap.2 ⟨doc, hdoc, hverdict⟩⟩
  have hon : verdict.smell.isOnElement = true := by
    rw [hsmell]
    rfl
  exact List.mem_map.2 ⟨verdict, List.mem_filter.2 ⟨hmem, hon⟩, rfl⟩

/-- An empty parameter tag without a name and an end tag, found among the elements and in the text. -/
theorem nodup_elementReports_unclosedParam :
    let file := commentedClass "/// <summary>x</summary><param>"
    file.IsWellFormed ∧ (∀ doc ∈ file.docComments, doc.markup.head? ≠ some '\uFEFF') ∧
      file.docComments.map (fun doc => (doc.unclosedPositions,
        ((RawTag.all 0 doc.markup).filter RawTag.isUnclosed).map
          fun tag => doc.sourceOffset tag.start)) = [([24], [24])] ∧
      (file.elementReports {} "a.cs").Nodup ∧
      (file.elementReports {} "a.cs").count ("DOC002", ⟨1, 25⟩) = 1 := by
  intro file
  have hfile := isWellFormed_commentedClass "/// <summary>x</summary><param>"
  have hmark : ∀ doc ∈ file.docComments, doc.markup.head? ≠ some '\uFEFF' := by decide +kernel
  have hplaces : file.docComments.map (fun doc => (doc.unclosedPositions,
      ((RawTag.all 0 doc.markup).filter RawTag.isUnclosed).map
        fun tag => doc.sourceOffset tag.start)) = [([24], [24])] := by decide +kernel
  obtain ⟨hnodup, hcount⟩ := nodup_elementReports hfile hmark {} "a.cs"
  refine ⟨hfile, hmark, hplaces, hnodup, ?_⟩
  obtain ⟨doc, hdoc, hunclosed, hplace⟩ : ∃ doc ∈ file.docComments,
      (doc.elements.any fun element =>
        element.tag.span.start == 21 && DocComment.isUnclosed element) = true ∧
        locate file.text (doc.sourceOffset 21) = ⟨1, 25⟩ := by decide +kernel
  have hone := hcount doc hdoc 21 (Or.inl (by simpa [List.any_eq_true] using hunclosed))
  rw [hplace] at hone
  exact hone

end Code.SourceFile
end DocAudit

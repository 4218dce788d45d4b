import DocAudit.Proofs.Comment.Characters
import DocAudit.Proofs.Detector.RawTags

/-!
# Places of findings

A finding on an element leads a reader to the `<` at which the element starts: the offset of the tag
in the markup of its comment leads to an offset of the source, and that to a line and a column. The
finding may be of any detector, and come from the forest of a comment or from its text.

* `Verdict.IsOnTag.exists_standsAt`: where a verdict on a tag stands in the markup;
* `Code.SourceFile.exists_isOnTag_of_mem_findings`: which findings are verdicts on tags;
* `Code.SourceFile.location_of_mem_findings`: where such a finding leads.
-/

namespace DocAudit

open Markup Text

/-- Without a byte order mark, a verdict on a tag is at the place of a `<` of the markup. -/
theorem Verdict.IsOnTag.exists_standsAt {verdict : Verdict} {doc : DocComment}
    (h : verdict.IsOnTag doc) (hmark : doc.markup.head? ≠ some '\uFEFF') :
    ∃ offset, StandsAt '<' offset doc.markup ∧ verdict.position = doc.sourceOffset offset := by
  rcases h with ⟨element, helement, hverdict, -⟩ | ⟨tag, htag, -, rfl⟩
  · rw [DocComment.elements, doc.forest_eq] at helement
    refine ⟨element.tag.span.start, Forest.standsAt_start helement hmark, ?_⟩
    rw [hverdict]
    rfl
  · exact ⟨tag.start, RawTag.standsAt_of_mem_all htag, rfl⟩

namespace Code.SourceFile

variable {file : SourceFile} {options : Options} {path : String} {finding : Finding}

/-- A finding of the analysis is made of the verdict of a detector. -/
theorem exists_verdict_of_mem_findings (h : finding ∈ file.findings options path) :
    ∃ detector : Detector, ∃ verdict ∈ detector.verdicts options file,
      finding = Finding.ofVerdict path file.text verdict := by
  obtain ⟨detector, -, h⟩ := List.mem_flatMap.1 h
  obtain ⟨verdict, hverdict, rfl⟩ := List.mem_map.1 h
  exact ⟨detector, verdict, hverdict, rfl⟩

theorem path_of_mem_findings (h : finding ∈ file.findings options path) : finding.path = path := by
  obtain ⟨-, -, -, rfl⟩ := exists_verdict_of_mem_findings h
  rfl

/-- A verdict with a smell of elements is on a tag of one of the doc comments. -/
theorem exists_isOnTag_of_mem_verdicts (htree : file.root.IsTree) {detector : Detector}
    {verdict : Verdict} (h : verdict ∈ detector.verdicts options file)
    (hsmell : verdict.smell.isOnElement = true) :
    ∃ doc ∈ file.docComments, verdict.IsOnTag doc := by
  rcases Detector.mem_verdicts_cases h with
    ⟨doc, hdoc, hverdict⟩ | ⟨declaration, hdeclaration, hverdict⟩
  · exact ⟨doc, hdoc, DocComment.isOnTag_of_mem_markupVerdicts hverdict⟩
  · -- The doc comment of a declaration is one of the file.
    obtain ⟨doc, hdoc, habout⟩ := Declaration.exists_isAbout_of_mem_verdicts hverdict hsmell
    exact ⟨doc, mem_docComments_of_doc htree hdeclaration hdoc, Or.inl habout⟩

/-- A finding with a smell of elements is a verdict on a tag of one of the doc comments. -/
theorem exists_isOnTag_of_mem_findings (htree : file.root.IsTree)
    (h : finding ∈ file.findings options path) (hsmell : finding.smell.isOnElement = true) :
    ∃ doc ∈ file.docComments, ∃ verdict : Verdict, verdict.IsOnTag doc ∧
      finding = Finding.ofVerdict path file.text verdict := by
  obtain ⟨detector, verdict, hverdict, rfl⟩ := exists_verdict_of_mem_findings h
  obtain ⟨doc, hdoc, htag⟩ := exists_isOnTag_of_mem_verdicts htree hverdict hsmell
  exact ⟨doc, hdoc, verdict, htag, rfl⟩

/-- A finding with a smell of elements leads to a `<` inside of one of the doc comments: the line
and the column it gives are those of an offset between the start and the end of the comment, and the
character there is that sign. -/
theorem location_of_mem_findings (hfile : file.IsWellFormed)
    (hmark : ∀ doc ∈ file.docComments, doc.markup.head? ≠ some '\uFEFF')
    (h : finding ∈ file.findings options path) (hsmell : finding.smell.isOnElement = true) :
    ∃ doc ∈ file.docComments, ∃ offset, doc.start ≤ offset ∧ offset < doc.stop ∧
      finding.location = locate file.text offset ∧
      charAt? file.text finding.location = some '<' := by
  obtain ⟨doc, hdoc, verdict, htag, rfl⟩ := exists_isOnTag_of_mem_findings hfile.isTree h hsmell
  obtain ⟨offset, hstands, hposition⟩ := htag.exists_standsAt (hmark doc hdoc)
  -- The sign keeps its place on the way from the markup through the source to a line and a column.
  obtain ⟨hsource, hstart, hstop⟩ :=
    (liesIn_docComment hfile hdoc).standsAt_sourceOffset doc.start (by decide) hstands
  rw [← DocComment.sourceOffset, ← hposition] at hsource hstart hstop
  exact ⟨doc, hdoc, verdict.position, hstart, hstop, rfl, charAt?_locate hsource (by decide)⟩

/-- A parameter tag without a name, on a line behind a text with a two-byte character. -/
theorem location_of_mem_findings_unnamedParam :
    let file := commentedClass "/** é\n * <param>x</param> */"
    file.IsWellFormed ∧ (∀ doc ∈ file.docComments, doc.markup.head? ≠ some '\uFEFF') ∧
      ∃ finding ∈ file.findings {} "a.cs", finding.smell.isOnElement = true ∧
        finding.location = ⟨2, 4⟩ ∧
        ∃ doc ∈ file.docComments, ∃ offset, doc.start ≤ offset ∧ offset < doc.stop ∧
          finding.location = locate file.text offset ∧
          charAt? file.text finding.location = some '<' := by
  intro file
  have hmark : ∀ doc ∈ file.docComments, doc.markup.head? ≠ some '\uFEFF' := by
    decide +kernel
  obtain ⟨finding, hmem, hsmell, hplace⟩ : ∃ finding ∈ file.findings {} "a.cs",
      finding.smell.isOnElement = true ∧ finding.location = ⟨2, 4⟩ := by
    decide +kernel
  have hfile := isWellFormed_commentedClass "/** é\n * <param>x</param> */"
  exact ⟨hfile, hmark, finding, hmem, hsmell, hplace,
    location_of_mem_findings hfile hmark hmem hsmell⟩

end Code.SourceFile
end DocAudit

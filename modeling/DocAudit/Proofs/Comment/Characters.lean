import DocAudit.Proofs.Comment.Runs
import DocAudit.Proofs.Comment.SegmentMap
import DocAudit.Proofs.Declaration.Documentation
import DocAudit.Proofs.Text.Lines

/-!
# Characters of a comment in the source

A character of the markup of a doc comment is a character of the source, at the place to which its
offset leads. Only the line feeds between the lines need not stand in the source: the lines of a
comment may be joined across its signs.

* `LiesIn.standsAt_sourceOffset`: where a character of the markup stands in the source;
* `Code.SourceFile.liesIn_docComment`: the lines of every doc comment of a file lie inside it;
* `Code.SourceFile.mem_docComments_of_doc`: the doc comment of a declaration is one of the file.
-/

namespace DocAudit

open Text

namespace Comment

/-- A character of a line stands in the source as far behind the place of the line. -/
theorem Line.OccursIn.standsAt {source : List Char} {line : Line} (h : line.OccursIn source)
    {c : Char} {offset : Nat} (hc : StandsAt c offset line.text) :
    StandsAt c (line.source + offset) source := by
  obtain ⟨before, after, rfl, hplace⟩ := h
  rw [← hplace]
  exact hc.middle before after

/-- A character of the markup stands in the source at the place of its offset, between the two
places between which the lines lie. -/
theorem LiesIn.standsAt_sourceOffset {source : List Char} {start stop : Nat} {lines : List Line}
    (h : LiesIn source start stop lines) (outside : Nat) {c : Char} {offset : Nat} (hc : c ≠ '\n')
    (hoffset : StandsAt c offset (markupOf lines)) :
    StandsAt c (sourceOffset outside lines offset) source ∧
      start ≤ sourceOffset outside lines offset ∧ sourceOffset outside lines offset < stop := by
  induction lines generalizing start offset with
  | nil => exact absurd hoffset.lt_byteLength (Nat.not_lt_zero offset)
  | cons line lines ih =>
    cases h with
    | cons hstart hoccurs hlater =>
      have hstop := hlater.start_le_stop
      rw [Line.stop] at hstop
      -- In the first line, the map counts on from the place of the line.
      have hfirst (hline : StandsAt c offset line.text) :
          StandsAt c (sourceOffset outside (line :: lines) offset) source ∧
            start ≤ sourceOffset outside (line :: lines) offset ∧
              sourceOffset outside (line :: lines) offset < stop := by
        have hlt := hline.lt_byteLength
        rw [sourceOffset_cons_of_le outside lines (Nat.le_of_lt hlt)]
        exact ⟨hoccurs.standsAt hline, by omega, by omega⟩
      cases lines with
      | nil => exact hfirst hoffset
      | cons next lines =>
        rcases hoffset.cases_joined hc with hline | ⟨rest, rfl, hrest⟩
        · exact hfirst hline
        · -- Behind the line feed, the map is that of the later lines.
          have hfeed : '\n'.utf8Size = 1 := by decide
          have hbehind : byteLength line.text + '\n'.utf8Size + rest -
              (byteLength line.text + 1) = rest := by omega
          rw [sourceOffset_cons_cons_of_lt outside next lines (by omega), hbehind]
          obtain ⟨hstands, hle, hlt⟩ := ih hlater hrest
          rw [Line.stop] at hle
          exact ⟨hstands, by omega, hlt⟩

/-- The offset just behind a character leads one byte further than that of the character. -/
theorem sourceOffset_succ (outside : Nat) {lines : List Line} {c : Char} {offset : Nat}
    (hc : c ≠ '\n') (hoffset : StandsAt c offset (markupOf lines)) :
    sourceOffset outside lines (offset + 1) = sourceOffset outside lines offset + 1 := by
  induction lines generalizing offset with
  | nil => exact absurd hoffset.lt_byteLength (Nat.not_lt_zero offset)
  | cons line lines ih =>
    have hfirst (hline : StandsAt c offset line.text) :
        sourceOffset outside (line :: lines) (offset + 1) =
          sourceOffset outside (line :: lines) offset + 1 := by
      have hlt := hline.lt_byteLength
      rw [sourceOffset_cons_of_le outside lines hlt,
        sourceOffset_cons_of_le outside lines (Nat.le_of_lt hlt), Nat.add_assoc]
    cases lines with
    | nil => exact hfirst hoffset
    | cons next lines =>
      rcases hoffset.cases_joined hc with hline | ⟨rest, rfl, hrest⟩
      · exact hfirst hline
      · -- Behind the line feed, the map is that of the later lines.
        have hfeed : '\n'.utf8Size = 1 := by decide
        rw [hfeed, sourceOffset_cons_cons_of_lt outside next lines (by omega),
          sourceOffset_cons_cons_of_lt outside next lines (by omega), Nat.add_sub_cancel_left,
          Nat.add_assoc, Nat.add_sub_cancel_left, ih hrest]

/-- The offset of a character leads less far than any later one. -/
theorem LiesIn.sourceOffset_lt {source : List Char} {start stop : Nat} {lines : List Line}
    (h : LiesIn source start stop lines) (outside : Nat) {c : Char} {i j : Nat} (hc : c ≠ '\n')
    (hi : StandsAt c i (markupOf lines)) (hij : i < j) :
    sourceOffset outside lines i < sourceOffset outside lines j := by
  cases lines with
  | nil => exact absurd hi.lt_byteLength (Nat.not_lt_zero i)
  | cons line lines =>
    calc sourceOffset outside (line :: lines) i
        < sourceOffset outside (line :: lines) (i + 1) := by
          rw [sourceOffset_succ outside hc hi]
          exact Nat.lt_succ_self _
      _ ≤ sourceOffset outside (line :: lines) j := h.sourceOffset_le outside hij

end Comment

/-- The lines of the doc comment that comments make lie between its start and its end, when the
comments follow one another between boundaries of the source. -/
theorem DocComment.liesIn_of_ofNodes? {source : List Char} {comments : List Code.Node}
    {doc : DocComment} (h : ofNodes? source comments = some doc)
    (hplaces : ∀ comment ∈ comments, comment.start ≤ comment.stop ∧
      isBoundary comment.start source = true ∧ isBoundary comment.stop source = true)
    (hapart : comments.Pairwise fun comment later => comment.stop ≤ later.start) :
    Comment.LiesIn source doc.start doc.stop doc.lines := by
  have hne : comments ≠ [] := by
    rintro rfl
    cases h
  have hwidth : ∀ comment ∈ comments, comment.start ≤ comment.stop := by
    intro comment hmem
    exact (hplaces comment hmem).1
  have hinside := Code.Node.inside_of_pairwise hne hwidth hapart
  have hlast := List.getLast_mem hne
  rw [ofNodes?_eq_some source hne] at h
  obtain rfl := Option.some.inj h
  refine Comment.liesIn_flatMap ?_ hapart ?_ hinside
  · intro comment hmem
    obtain ⟨hle, hstart, hstop⟩ := hplaces comment hmem
    exact Comment.liesIn_bodyLines_text hle hstart hstop
  · exact Nat.le_trans (hinside _ hlast).1 (hwidth _ hlast)

namespace Code.SourceFile

variable {file : SourceFile}

/-- The lines of every doc comment of a file lie between the start and the end of the comment. -/
theorem liesIn_docComment (hfile : file.IsWellFormed) {doc : DocComment}
    (hdoc : doc ∈ file.docComments) :
    Comment.LiesIn file.text doc.start doc.stop doc.lines := by
  obtain ⟨run, hrun, hmade⟩ := List.mem_filterMap.1 hdoc
  refine DocComment.liesIn_of_ofNodes? hmade ?_
    (Comment.pairwise_of_mem_runsBelow hfile.isTree hfile.not_isComment_root hrun)
  intro comment hmem
  have hpreorder : comment ∈ file.root.preorder := by
    have hflatten : comment ∈ file.docRuns.flatten := List.mem_flatten.2 ⟨run, hrun, hmem⟩
    rw [flatten_docRuns hfile.isTree hfile.not_isComment_root] at hflatten
    exact (List.mem_filter.1 hflatten).1
  exact ⟨(hfile.isTree comment hpreorder).start_le_stop, hfile.isBoundary comment hpreorder⟩

/-- The doc comment of a declaration is one of the doc comments of its file. -/
theorem mem_docComments_of_doc (htree : file.root.IsTree) {declaration : Declaration}
    (hdeclaration : declaration ∈ file.declarations) {doc : DocComment}
    (hdoc : declaration.doc = some doc) : doc ∈ file.docComments := by
  apply (docs_sublist_docComments htree).subset
  exact List.mem_filterMap.2 ⟨declaration, hdeclaration, hdoc⟩

end Code.SourceFile
end DocAudit

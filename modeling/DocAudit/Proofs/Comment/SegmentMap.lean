import DocAudit.Proofs.Code.Tree
import DocAudit.Proofs.Comment.Lines

/-!
# The map of offsets

The markup of a doc comment consists of segments, one for each line, with a line feed between any
two. The map of offsets leads from a byte of a segment to the same byte of the source, and from the
line feed behind a segment to the place just past the text of the segment.

* `sourceOffset_of_mem_segments`: where the offsets of a segment lead;
* `DocComment.IsFaithful`, `DocComment.IsOrdered`: what the map of offsets keeps;
* `DocComment.exists_isFaithful`: it does so for all comments at boundaries of a source.
-/

namespace DocAudit

open Text

namespace Comment

/-- The text of a line as a part of the markup. -/
structure Segment where
  /-- The byte offset in the markup where the text starts. -/
  start : Nat
  /-- The byte offset in the source where the text starts. -/
  source : Nat
  /-- The number of bytes of the text. -/
  length : Nat
deriving DecidableEq, Repr

namespace Segment

/-- The byte offset in the markup just past the text. -/
def stop (segment : Segment) : Nat :=
  segment.start + segment.length

/-- The segment holds the byte at an offset of the markup. -/
def Holds (segment : Segment) (offset : Nat) : Prop :=
  segment.start ≤ offset ∧ offset < segment.stop

end Segment

/-- The segments of lines whose markup starts at `position`. -/
def segmentsFrom (position : Nat) : List Line → List Segment
  | [] => []
  | line :: lines =>
    ⟨position, line.source, byteLength line.text⟩ ::
      segmentsFrom (position + byteLength line.text + 1) lines

/-- The number of bytes of lines that each end with a line feed. -/
def width : List Line → Nat
  | [] => 0
  | line :: lines => byteLength line.text + 1 + width lines

/-! ## Segments and lines -/

/-- A segment is a line behind the lines in front of it. -/
theorem exists_line_of_getElem?_segmentsFrom {position index : Nat} {lines : List Line}
    {segment : Segment} (h : (segmentsFrom position lines)[index]? = some segment) :
    ∃ earlier line later, lines = earlier ++ line :: later ∧ earlier.length = index ∧
      segment = ⟨position + width earlier, line.source, byteLength line.text⟩ := by
  induction lines generalizing position index with
  | nil => cases h
  | cons line lines ih =>
    cases index with
    | zero => exact ⟨[], line, lines, rfl, rfl, (Option.some.inj h).symm⟩
    | succ index =>
      rw [segmentsFrom, List.getElem?_cons_succ] at h
      obtain ⟨earlier, inner, later, rfl, rfl, rfl⟩ := ih h
      refine ⟨line :: earlier, inner, later, rfl, rfl, ?_⟩
      rw [width, Segment.mk.injEq]
      exact ⟨by omega, rfl, rfl⟩

theorem length_segmentsFrom (position : Nat) (lines : List Line) :
    (segmentsFrom position lines).length = lines.length := by
  induction lines generalizing position with
  | nil => rfl
  | cons line lines ih => rw [segmentsFrom, List.length_cons, ih, List.length_cons]

/-- A line feed stands between a segment and the next. -/
theorem start_of_getElem?_segmentsFrom_succ {position index : Nat} {lines : List Line}
    {segment next : Segment} (h : (segmentsFrom position lines)[index]? = some segment)
    (hnext : (segmentsFrom position lines)[index + 1]? = some next) :
    next.start = segment.stop + 1 := by
  induction lines generalizing position index with
  | nil => cases h
  | cons line lines ih =>
    rw [segmentsFrom, List.getElem?_cons_succ] at hnext
    cases index with
    | zero =>
      obtain rfl := Option.some.inj h
      cases lines with
      | nil => cases hnext
      | cons later lines =>
        obtain rfl := Option.some.inj hnext
        rfl
    | succ index =>
      rw [segmentsFrom, List.getElem?_cons_succ] at h
      exact ih h hnext

/-- Every byte of the markup is held by a segment or is a line feed between two of them. -/
theorem exists_segment_of_lt {position offset : Nat} {lines : List Line} (hle : position ≤ offset)
    (hlt : offset < position + byteLength (markupOf lines)) :
    (∃ segment ∈ segmentsFrom position lines, segment.Holds offset) ∨
      ∃ (index : Nat) (segment next : Segment),
        (segmentsFrom position lines)[index]? = some segment ∧
          (segmentsFrom position lines)[index + 1]? = some next ∧ offset = segment.stop := by
  induction lines generalizing position with
  | nil => exact absurd hlt (Nat.not_lt.2 hle)
  | cons line lines ih =>
    by_cases hline : offset < position + byteLength line.text
    · exact .inl ⟨_, List.mem_cons_self, hle, hline⟩
    cases lines with
    | nil => exact absurd hlt hline
    | cons next lines =>
      by_cases hfeed : offset = position + byteLength line.text
      · exact .inr ⟨0, _, _, rfl, rfl, hfeed⟩
      have hmarkup : byteLength (markupOf (line :: next :: lines)) =
          byteLength line.text + (1 + byteLength (markupOf (next :: lines))) := by
        have hjoin : markupOf (line :: next :: lines) =
            line.text ++ '\n' :: markupOf (next :: lines) := rfl
        rw [hjoin, byteLength_append]
        rfl
      rw [hmarkup] at hlt
      -- The offset is behind the line feed, so it is one of the rest.
      have hbehind : position + byteLength line.text + 1 ≤ offset := by omega
      rcases ih hbehind (by omega) with
        ⟨segment, hmem, hholds⟩ | ⟨index, segment, after, hsegment, hafter, hstop⟩
      · exact .inl ⟨segment, List.mem_cons_of_mem _ hmem, hholds⟩
      · exact .inr ⟨index + 1, segment, after, hsegment, hafter, hstop⟩

/-- The markup of lines around a line. -/
theorem exists_markupOf_append (earlier : List Line) (line : Line) (later : List Line) :
    ∃ front, byteLength front = width earlier ∧
      markupOf (earlier ++ line :: later) =
        front ++ (line.text ++ later.flatMap fun next => '\n' :: next.text) := by
  induction earlier with
  | nil =>
    refine ⟨[], rfl, ?_⟩
    rw [List.nil_append, markupOf, List.map_cons, joinWith_cons, List.flatMap_map, List.nil_append]
  | cons first earlier ih =>
    obtain ⟨front, hlength, hmarkup⟩ := ih
    refine ⟨first.text ++ '\n' :: front, ?_, ?_⟩
    · have hfeed : byteLength ('\n' :: front) = 1 + byteLength front := rfl
      rw [byteLength_append, hfeed, hlength, width, Nat.add_assoc]
    · have hjoin : markupOf (first :: (earlier ++ line :: later)) =
          first.text ++ '\n' :: markupOf (earlier ++ line :: later) := by
        cases earlier <;> rfl
      rw [List.cons_append, hjoin, hmarkup, List.append_assoc, List.cons_append]

/-- Behind a line with a line after it stands a line feed. -/
theorem getElem?_bytes_markupOf_append (earlier : List Line) (line next : Line)
    (later : List Line) :
    (bytes (markupOf (earlier ++ line :: next :: later)))[width earlier + byteLength line.text]? =
      some 0x0A := by
  obtain ⟨front, hfront, hmarkup⟩ := exists_markupOf_append earlier line (next :: later)
  have hsplit : markupOf (earlier ++ line :: next :: later) =
      front ++ line.text ++
        (['\n'] ++ (next.text ++ later.flatMap fun after => '\n' :: after.text)) := by
    rw [hmarkup, List.append_assoc]
    rfl
  have hplace : width earlier + byteLength line.text = byteLength (front ++ line.text) + 0 := by
    rw [byteLength_append, hfront, Nat.add_zero]
  rw [hsplit, hplace, getElem?_bytes_middle _ _ (by decide)]
  decide

/-! ## Where offsets lead -/

theorem sourceOffset_cons_of_le (start : Nat) {line : Line} (lines : List Line) {offset : Nat}
    (h : offset ≤ byteLength line.text) :
    sourceOffset start (line :: lines) offset = line.source + offset := by
  cases lines with
  | nil => rw [sourceOffset, Nat.min_eq_left h]
  | cons next lines => rw [sourceOffset, if_pos h]

theorem sourceOffset_cons_cons_of_lt (start : Nat) {line : Line} (next : Line) (lines : List Line)
    {offset : Nat} (h : byteLength line.text < offset) :
    sourceOffset start (line :: next :: lines) offset =
      sourceOffset start (next :: lines) (offset - (byteLength line.text + 1)) := by
  rw [sourceOffset, if_neg (Nat.not_le.2 h)]

/-- Behind the width of leading lines, the map is that of the rest. -/
theorem sourceOffset_append (start : Nat) (earlier : List Line) (line : Line) (later : List Line)
    (offset : Nat) :
    sourceOffset start (earlier ++ line :: later) (width earlier + offset) =
      sourceOffset start (line :: later) offset := by
  induction earlier with
  | nil => rw [List.nil_append, width, Nat.zero_add]
  | cons first earlier ih =>
    obtain ⟨next, lines, hlines⟩ : ∃ next lines, earlier ++ line :: later = next :: lines :=
      List.exists_cons_of_ne_nil (by simp)
    have hlt : byteLength first.text < width (first :: earlier) + offset := by
      rw [width]
      omega
    have hrest : width (first :: earlier) + offset - (byteLength first.text + 1) =
        width earlier + offset := by
      rw [width]
      omega
    rw [← ih, List.cons_append, hlines, sourceOffset_cons_cons_of_lt start next lines hlt, hrest]

namespace LiesIn

variable {source : List Char} {start stop : Nat} {line : Line} {lines : List Line}

/-- The places of the offsets of a body are those between which its lines lie. -/
theorem le_sourceOffset (h : LiesIn source start stop (line :: lines)) (outside offset : Nat) :
    start ≤ sourceOffset outside (line :: lines) offset ∧
      sourceOffset outside (line :: lines) offset ≤ stop := by
  induction lines generalizing start line offset with
  | nil =>
    cases h with
    | cons hstart _ hlater =>
      have hstop := hlater.start_le_stop
      rw [Line.stop] at hstop
      rw [sourceOffset]
      omega
  | cons next lines ih =>
    cases h with
    | cons hstart _ hlater =>
      have hstop := hlater.start_le_stop
      rw [Line.stop] at hstop
      by_cases hle : offset ≤ byteLength line.text
      · rw [sourceOffset_cons_of_le outside _ hle]
        omega
      · rw [sourceOffset_cons_cons_of_lt outside next lines (Nat.not_le.1 hle)]
        have hrest := ih hlater (offset - (byteLength line.text + 1))
        rw [Line.stop] at hrest
        omega

/-- The map of offsets keeps the order. -/
theorem sourceOffset_le (h : LiesIn source start stop (line :: lines)) (outside : Nat) {i j : Nat}
    (hij : i ≤ j) :
    sourceOffset outside (line :: lines) i ≤ sourceOffset outside (line :: lines) j := by
  induction lines generalizing start line i j with
  | nil =>
    rw [sourceOffset, sourceOffset]
    omega
  | cons next lines ih =>
    cases h with
    | cons _ _ hlater =>
      by_cases hj : j ≤ byteLength line.text
      · rw [sourceOffset_cons_of_le outside _ hj,
          sourceOffset_cons_of_le outside _ (Nat.le_trans hij hj)]
        exact Nat.add_le_add_left hij _
      · rw [sourceOffset_cons_cons_of_lt outside next lines (Nat.not_le.1 hj)]
        by_cases hi : i ≤ byteLength line.text
        · -- The first offset stays in the line, the second one leads behind it.
          rw [sourceOffset_cons_of_le outside _ hi]
          calc line.source + i ≤ line.stop := Nat.add_le_add_left hi _
            _ ≤ _ := (hlater.le_sourceOffset outside _).1
        · rw [sourceOffset_cons_cons_of_lt outside next lines (Nat.not_le.1 hi)]
          exact ih hlater (Nat.sub_le_sub_right hij _)

end LiesIn
end Comment

namespace DocComment

open Comment

/-- The segments of the markup of a doc comment. -/
def segments (doc : DocComment) : List Segment :=
  segmentsFrom 0 doc.lines

/-- The map of offsets leads to the same bytes of the source. -/
structure IsFaithful (source : List Char) (doc : DocComment) : Prop where
  /-- A byte of a segment is the byte of the source to which its offset leads. -/
  inside : ∀ segment ∈ doc.segments, ∀ offset, segment.Holds offset →
    ∃ byte, (bytes doc.markup)[offset]? = some byte ∧
      (bytes source)[doc.sourceOffset offset]? = some byte
  /-- Between two segments stands a line feed, and its offset leads just past the text of the first
  one. -/
  between : ∀ (index : Nat) (segment next : Segment),
    doc.segments[index]? = some segment → doc.segments[index + 1]? = some next →
      next.start = segment.stop + 1 ∧ (bytes doc.markup)[segment.stop]? = some 0x0A ∧
        doc.sourceOffset segment.stop = segment.source + segment.length
  /-- There is nothing else in the markup. -/
  covered : ∀ offset < byteLength doc.markup,
    (∃ segment ∈ doc.segments, segment.Holds offset) ∨
      ∃ (index : Nat) (segment next : Segment), doc.segments[index]? = some segment ∧
        doc.segments[index + 1]? = some next ∧ offset = segment.stop

/-- The map of offsets keeps the order and stays inside the comment. -/
structure IsOrdered (doc : DocComment) : Prop where
  /-- An offset does not lead further than a later one. -/
  monotone : ∀ i j, i ≤ j → doc.sourceOffset i ≤ doc.sourceOffset j
  /-- Inside a segment it leads less far than any later one. -/
  strict : ∀ i j, i < j → (∃ segment ∈ doc.segments, segment.Holds i) →
    doc.sourceOffset i < doc.sourceOffset j
  /-- All offsets lead into the comment. -/
  range : ∀ offset, doc.start ≤ doc.sourceOffset offset ∧ doc.sourceOffset offset ≤ doc.stop

variable {doc : DocComment} {segment : Segment}

/-- From the start of a segment through its end, the map counts on from the place of its line. -/
theorem sourceOffset_of_mem_segments (h : segment ∈ doc.segments) {offset : Nat}
    (hstart : segment.start ≤ offset) (hstop : offset ≤ segment.stop) :
    doc.sourceOffset offset = segment.source + (offset - segment.start) := by
  obtain ⟨index, hindex⟩ := List.mem_iff_getElem?.1 h
  obtain ⟨earlier, line, later, hlines, -, rfl⟩ := exists_line_of_getElem?_segmentsFrom hindex
  obtain ⟨inside, rfl⟩ := Nat.exists_eq_add_of_le hstart
  rw [Segment.stop] at hstop
  simp only [Nat.zero_add, Nat.add_sub_cancel_left] at hstop ⊢
  rw [DocComment.sourceOffset, hlines, sourceOffset_append,
    sourceOffset_cons_of_le _ _ (Nat.le_of_add_le_add_left hstop)]

/-- The map of offsets is faithful when every line is a part of the source. -/
theorem isFaithful_of_occursIn {source : List Char}
    (h : ∀ line ∈ doc.lines, line.OccursIn source) : doc.IsFaithful source where
  inside := by
    rintro segment hsegment offset ⟨hstart, hstop⟩
    rw [sourceOffset_of_mem_segments hsegment hstart (Nat.le_of_lt hstop)]
    obtain ⟨index, hindex⟩ := List.mem_iff_getElem?.1 hsegment
    obtain ⟨earlier, line, later, hlines, -, rfl⟩ := exists_line_of_getElem?_segmentsFrom hindex
    obtain ⟨inside, rfl⟩ := Nat.exists_eq_add_of_le hstart
    have hinside : inside < byteLength line.text := Nat.lt_of_add_lt_add_left hstop
    simp only [Nat.zero_add, Nat.add_sub_cancel_left]
    have hbyte : inside < (bytes line.text).length := by rwa [length_bytes]
    -- The byte is that of the line, which stands both in the markup and in the source.
    refine ⟨(bytes line.text)[inside], ?_, ?_⟩
    · obtain ⟨front, hfront, hmarkup⟩ := exists_markupOf_append earlier line later
      rw [markup, hlines, hmarkup, ← hfront, getElem?_bytes_middle front _ hinside]
      exact List.getElem?_eq_getElem hbyte
    · obtain ⟨before, after, rfl, hplace⟩ := h line (by rw [hlines]; simp)
      rw [← hplace, getElem?_bytes_middle before _ hinside]
      exact List.getElem?_eq_getElem hbyte
  between := by
    intro index segment next hsegment hnext
    have hmem : segment ∈ doc.segments := List.mem_of_getElem? hsegment
    have hle : segment.start ≤ segment.stop := Nat.le_add_right _ _
    have hplace := sourceOffset_of_mem_segments hmem hle (Nat.le_refl _)
    refine ⟨start_of_getElem?_segmentsFrom_succ hsegment hnext, ?_, ?_⟩
    · obtain ⟨earlier, line, later, hlines, rfl, rfl⟩ :=
        exists_line_of_getElem?_segmentsFrom hsegment
      have hlength : earlier.length + 1 < doc.segments.length :=
        (List.getElem?_eq_some_iff.1 hnext).1
      rw [segments, length_segmentsFrom, hlines, List.length_append] at hlength
      -- A later segment means that there is a later line.
      cases later with
      | nil => exact absurd hlength (Nat.lt_irrefl _)
      | cons after later =>
        rw [markup, hlines, Segment.stop, Nat.zero_add]
        exact getElem?_bytes_markupOf_append earlier line after later
    · rw [hplace, Segment.stop, Nat.add_sub_cancel_left]
  covered := by
    intro offset hlt
    apply exists_segment_of_lt (Nat.zero_le offset)
    rwa [Nat.zero_add]

/-- The map of offsets keeps the order when the lines follow one another inside the comment. -/
theorem isOrdered_of_liesIn {source : List Char} (hle : doc.start ≤ doc.stop)
    (h : LiesIn source doc.start doc.stop doc.lines) : doc.IsOrdered := by
  have hmonotone : ∀ i j, i ≤ j → doc.sourceOffset i ≤ doc.sourceOffset j := by
    intro i j hij
    rw [DocComment.sourceOffset, DocComment.sourceOffset]
    cases hlines : doc.lines with
    | nil => exact Nat.le_refl _
    | cons line lines =>
      rw [hlines] at h
      exact h.sourceOffset_le doc.start hij
  refine ⟨hmonotone, ?_, ?_⟩
  · rintro i j hij ⟨segment, hsegment, hstart, hstop⟩
    -- The next offset leads one byte further, and later ones no less far than that.
    have hplace := sourceOffset_of_mem_segments hsegment hstart (Nat.le_of_lt hstop)
    have hnext : doc.sourceOffset (i + 1) = segment.source + (i + 1 - segment.start) :=
      sourceOffset_of_mem_segments hsegment (Nat.le_succ_of_le hstart) hstop
    have hlater := hmonotone (i + 1) j hij
    omega
  · intro offset
    rw [DocComment.sourceOffset]
    cases hlines : doc.lines with
    | nil => exact ⟨Nat.le_refl _, hle⟩
    | cons line lines =>
      rw [hlines] at h
      exact h.le_sourceOffset doc.start offset

/-- The map of offsets of comments that stand between boundaries of a source is faithful, and it
keeps the order when the comments follow one another. -/
theorem exists_isFaithful {source : List Char} {comments : List Code.Node} (hne : comments ≠ [])
    (hplaces : ∀ comment ∈ comments, comment.start ≤ comment.stop ∧
      isBoundary comment.start source = true ∧ isBoundary comment.stop source = true) :
    ∃ doc, ofNodes? source comments = some doc ∧ doc.IsFaithful source ∧
      ((comments.Pairwise fun comment later => comment.stop ≤ later.start) → doc.IsOrdered) := by
  have hlines : ∀ comment ∈ comments, LiesIn source comment.start comment.stop
      (bodyLines comment.start (comment.text source)) := by
    intro comment hmem
    obtain ⟨hle, hstart, hstop⟩ := hplaces comment hmem
    exact liesIn_bodyLines_text hle hstart hstop
  rw [ofNodes?, List.head?_eq_some_head hne, List.getLast?_eq_some_getLast hne]
  refine ⟨_, rfl, isFaithful_of_occursIn ?_, ?_⟩
  · intro line hline
    obtain ⟨comment, hcomment, hmem⟩ := List.mem_flatMap.1 hline
    exact (hlines comment hcomment).occursIn hmem
  · intro hapart
    have hwidth : ∀ comment ∈ comments, comment.start ≤ comment.stop := by
      intro comment hmem
      exact (hplaces comment hmem).1
    have hinside := Code.Node.inside_of_pairwise hne hwidth hapart
    have hfirst := (hinside _ (List.getLast_mem hne)).1
    have hlast := hwidth _ (List.getLast_mem hne)
    have hle := Nat.le_trans hfirst hlast
    exact isOrdered_of_liesIn hle (liesIn_flatMap hlines hapart hle hinside)

/-- Two comments: a line that ends with a carriage return, and a block of three lines. -/
def sampleComments : List Code.Node :=
  [.mk ⟨"comment", true, false, 2, 9, none⟩ [], .mk ⟨"comment", true, false, 12, 28, none⟩ []]

/-- The map of offsets of a line comment and a block. -/
theorem exists_isFaithful_sampleComments :
    let source := "  /// é\r\n  /** b\n   * c\n */".toList
    sampleComments ≠ [] ∧
      (∀ comment ∈ sampleComments, comment.start ≤ comment.stop ∧
        isBoundary comment.start source = true ∧ isBoundary comment.stop source = true) ∧
      (sampleComments.Pairwise fun comment later => comment.stop ≤ later.start) ∧
      ∃ doc, ofNodes? source sampleComments = some doc ∧ doc.IsFaithful source ∧ doc.IsOrdered := by
  have hne : sampleComments ≠ [] := List.cons_ne_nil _ _
  have hplaces : ∀ comment ∈ sampleComments, comment.start ≤ comment.stop ∧
      isBoundary comment.start "  /// é\r\n  /** b\n   * c\n */".toList = true ∧
      isBoundary comment.stop "  /// é\r\n  /** b\n   * c\n */".toList = true := by
    decide
  have hapart : sampleComments.Pairwise fun comment later => comment.stop ≤ later.start := by
    decide
  obtain ⟨doc, hdoc, hfaithful, hordered⟩ := exists_isFaithful hne hplaces
  exact ⟨hne, hplaces, hapart, doc, hdoc, hfaithful, hordered hapart⟩

end DocComment
end DocAudit

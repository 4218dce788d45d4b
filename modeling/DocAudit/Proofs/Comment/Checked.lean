import DocAudit.Proofs.Comment.SegmentMap
import DocAudit.Proofs.Markup.Checked
import DocAudit.Proofs.Markup.Nesting

/-!
# Doc comments with checked cuts

A doc comment is cut out of the source, its lines are cut out of the comment and its markup is cut into
events; later its elements are cut out of the markup, and offsets of the markup are looked up in the
table of its segments. None of this stops with a fault, if the comments stand between boundaries of the
source and their markup does not begin with a byte order mark.

* `Comment.bodyLinesChecked_eq`: the lines of a comment;
* `DocComment.sourceOffsetChecked_eq`: looking up an offset in the table of segments;
* `DocComment.textOfChecked_eq`: cutting out an element;
* `DocComment.isReadSafely`: all of this, and the way from a byte offset to a line and a column.
-/

namespace DocAudit

open Text

namespace Comment

/-! ## The lines of a comment -/

/-- A line of a block after its first: leading blanks go, and one star after them. -/
def stripDecorationChecked (start : Nat) (line : List Char) : Checked Line := do
  let indent ← Checked.sub (byteLength line) (byteLength (trimStart line))
  let rest ← sliceChecked indent (byteLength line) line
  let content := if rest.head? = some '*' then indent + 1 else indent
  let text ← sliceChecked content (byteLength line) line
  return ⟨start + content, text⟩

/-- The lines of a block after its first, from where the first of them starts. -/
def laterLinesChecked (start : Nat) : List (List Char) → Checked (List Line)
  | [] => .ok []
  | line :: lines => do
    let first ← stripDecorationChecked start (dropEndWhile (· == '\r') line)
    let later ← laterLinesChecked (start + byteLength line + 1) lines
    return first :: later

/-- The lines of the inside of a block that starts at `start`. -/
def blockLinesChecked (start : Nat) (inside : List Char) : Checked (List Line) :=
  match splitAt '\n' inside with
  | [] => .ok []
  | first :: later => do
    let lines ← laterLinesChecked (start + byteLength first + 1) later
    return ⟨start, dropEndWhile (· == '\r') first⟩ :: lines

/-- The lines of the comment of the given text that starts at `start`. -/
def bodyLinesChecked (start : Nat) (comment : List Char) : Checked (List Line) :=
  match dropHead? lineSign comment with
  | some body =>
    .ok [⟨start + byteLength lineSign, dropEndWhile (fun c => c == '\r' || c == '\n') body⟩]
  | none =>
    match dropHead? blockOpening comment with
    | some body =>
      blockLinesChecked (start + byteLength blockOpening) ((dropTail? blockClosing body).getD body)
    | none => .ok []

/-- The lines of several comments of a source. -/
def linesChecked (source : List Char) : List Code.Node → Checked (List Line)
  | [] => .ok []
  | comment :: comments => do
    let text ← sliceChecked comment.start comment.stop source
    let lines ← bodyLinesChecked comment.start text
    let later ← linesChecked source comments
    return lines ++ later

theorem stripDecorationChecked_eq (start : Nat) (line : List Char) :
    stripDecorationChecked start line = .ok (stripDecoration start line) := by
  have hline : line.takeWhile isBlankChar ++ trimStart line = line :=
    List.takeWhile_append_dropWhile
  have hindent : Checked.sub (byteLength line) (byteLength (trimStart line)) =
      .ok (byteLength (line.takeWhile isBlankChar)) := by
    have hlength := congrArg byteLength hline
    rw [byteLength_append] at hlength
    rw [Checked.sub_eq (by omega)]
    exact congrArg Except.ok (by omega)
  have hrest : sliceChecked (byteLength (line.takeWhile isBlankChar)) (byteLength line) line =
      .ok (trimStart line) := by
    have hback := sliceChecked_back (line.takeWhile isBlankChar) (trimStart line)
    rwa [hline] at hback
  rw [stripDecorationChecked, hindent, Checked.ok_bind, hrest, Checked.ok_bind, stripDecoration]
  cases htrim : trimStart line with
  | nil =>
    rw [htrim] at hrest
    simp only [List.head?_nil, reduceCtorEq, if_false]
    rw [hrest]
    rfl
  | cons c content =>
    rw [htrim] at hrest
    by_cases hc : c = '*'
    · -- The star is one byte long.
      subst hc
      have hstar : byteLength (line.takeWhile isBlankChar) + 1 =
          byteLength (line.takeWhile isBlankChar ++ ['*']) := by
        rw [byteLength_append]
        rfl
      have hcontent := sliceChecked_back (line.takeWhile isBlankChar ++ ['*']) content
      rw [List.append_assoc, List.singleton_append, ← htrim, hline, ← hstar] at hcontent
      simp only [List.head?_cons, if_true]
      rw [hcontent]
      rfl
    · simp only [List.head?_cons, Option.some.injEq, hc, if_false]
      rw [hrest]
      split
      · next heq => exact absurd (List.cons.inj heq).1 hc
      · rfl

theorem laterLinesChecked_eq (start : Nat) (lines : List (List Char)) :
    laterLinesChecked start lines = .ok (laterLines start lines) := by
  induction lines generalizing start with
  | nil => rfl
  | cons line lines ih =>
    rw [laterLinesChecked, stripDecorationChecked_eq, Checked.ok_bind, ih]
    rfl

theorem blockLinesChecked_eq (start : Nat) (inside : List Char) :
    blockLinesChecked start inside = .ok (blockLines start inside) := by
  rw [blockLinesChecked, blockLines]
  cases splitAt '\n' inside with
  | nil => rfl
  | cons first later =>
    dsimp only
    rw [laterLinesChecked_eq]
    rfl

theorem bodyLinesChecked_eq (start : Nat) (comment : List Char) :
    bodyLinesChecked start comment = .ok (bodyLines start comment) := by
  rw [bodyLinesChecked, bodyLines]
  cases dropHead? lineSign comment with
  | some body => rfl
  | none =>
    cases dropHead? blockOpening comment with
    | some body => exact blockLinesChecked_eq _ _
    | none => rfl

/-- The lines of comments between boundaries of the source. -/
theorem linesChecked_eq {source : List Char} {comments : List Code.Node}
    (hplaces : ∀ comment ∈ comments, comment.start ≤ comment.stop ∧
      isBoundary comment.start source = true ∧ isBoundary comment.stop source = true) :
    linesChecked source comments =
      .ok (comments.flatMap fun comment => bodyLines comment.start (comment.text source)) := by
  induction comments with
  | nil => rfl
  | cons comment comments ih =>
    obtain ⟨hle, hstart, hstop⟩ := hplaces comment List.mem_cons_self
    rw [linesChecked, sliceChecked_eq hle hstart hstop, Checked.ok_bind, bodyLinesChecked_eq,
      Checked.ok_bind, ih fun other hother => hplaces other (List.mem_cons_of_mem _ hother)]
    rfl

/-! ## Segments in front of an offset -/

theorem segmentsFrom_append (position : Nat) (xs ys : List Line) :
    segmentsFrom position (xs ++ ys) =
      segmentsFrom position xs ++ segmentsFrom (position + width xs) ys := by
  induction xs generalizing position with
  | nil => rfl
  | cons line xs ih =>
    rw [List.cons_append, segmentsFrom, segmentsFrom, ih, width, Nat.add_assoc position,
      Nat.add_assoc]
    rfl

/-- Segments start where they are laid out. -/
theorem start_of_mem_segmentsFrom {position : Nat} {lines : List Line} {segment : Segment}
    (h : segment ∈ segmentsFrom position lines) :
    position ≤ segment.start ∧ segment.start < position + width lines := by
  induction lines generalizing position with
  | nil => cases h
  | cons line lines ih =>
    rw [width]
    rcases List.mem_cons.1 h with rfl | h
    · exact ⟨Nat.le_refl _, by simp only; omega⟩
    · have := ih h
      omega

/-- The table of segments is ascending, as the search in it wants it. -/
theorem pairwise_start_segmentsFrom (position : Nat) (lines : List Line) :
    ((segmentsFrom position lines).map (·.start)).Pairwise (· < ·) := by
  induction lines generalizing position with
  | nil => exact List.Pairwise.nil
  | cons line lines ih =>
    refine List.pairwise_cons.2 ⟨fun start hstart => ?_, ih _⟩
    obtain ⟨segment, hsegment, rfl⟩ := List.mem_map.1 hstart
    have := start_of_mem_segmentsFrom hsegment
    dsimp only
    omega

/-- An offset of a markup stands in one of its lines, or behind the last. -/
theorem exists_line_of_offset {lines : List Line} (hne : lines ≠ []) (offset : Nat) :
    ∃ earlier line later rest, lines = earlier ++ line :: later ∧
      offset = width earlier + rest ∧ (later = [] ∨ rest ≤ byteLength line.text) := by
  induction lines generalizing offset with
  | nil => exact absurd rfl hne
  | cons line lines ih =>
    by_cases hline : lines = [] ∨ offset ≤ byteLength line.text
    · exact ⟨[], line, lines, offset, rfl, (Nat.zero_add _).symm, hline⟩
    · obtain ⟨hmore, hbehind⟩ := not_or.1 hline
      obtain ⟨earlier, last, later, rest, rfl, hoffset, hrest⟩ :=
        ih hmore (offset - (byteLength line.text + 1))
      refine ⟨line :: earlier, last, later, rest, rfl, ?_, hrest⟩
      rw [width]
      omega

end Comment

namespace DocComment

open Comment Markup

/-! ## Offsets and elements -/

/-- The place in the source of an offset in the markup, looked up in the table of segments. -/
def sourceOffsetChecked (doc : DocComment) (offset : Nat) : Checked Nat :=
  if search offset (doc.segments.map (·.start)) = .absent 0 then .ok doc.start
  else do
    let index ← indexChecked offset (doc.segments.map (·.start))
    let segment ← Checked.get doc.segments index
    let inside ← Checked.sub offset segment.start
    return segment.source + min inside segment.length

/-- The text of an element. Its span is not trusted to be inside of the markup. -/
def textOfChecked (doc : DocComment) (element : Element) : Checked (List Char) :=
  let stop := min element.tag.span.stop (byteLength doc.markup)
  let start := min element.tag.span.start stop
  sliceChecked start stop doc.markup

/-- The place of every offset is found. -/
theorem sourceOffsetChecked_eq (doc : DocComment) (offset : Nat) :
    doc.sourceOffsetChecked offset = .ok (doc.sourceOffset offset) := by
  rw [sourceOffsetChecked, DocComment.sourceOffset, segments]
  cases hlines : doc.lines with
  | nil => rfl
  | cons first more =>
    obtain ⟨earlier, line, later, rest, hsplit, rfl, hrest⟩ :=
      exists_line_of_offset (List.cons_ne_nil first more) offset
    rw [hsplit, segmentsFrom_append, segmentsFrom, List.map_append, List.map_cons, Nat.zero_add]
    dsimp only
    have hlength : ((segmentsFrom 0 earlier).map (·.start)).length =
        (segmentsFrom 0 earlier).length := List.length_map _
    have hxs : ∀ x ∈ (segmentsFrom 0 earlier).map (·.start), x < width earlier + rest := by
      intro x hx
      obtain ⟨segment, hsegment, rfl⟩ := List.mem_map.1 hx
      have := start_of_mem_segmentsFrom hsegment
      omega
    -- Every later line starts behind the line feed that ends this one.
    have hys : ∀ y ∈ (segmentsFrom (width earlier + byteLength line.text + 1) later).map (·.start),
        width earlier + rest < y := by
      intro y hy
      obtain ⟨segment, hsegment, rfl⟩ := List.mem_map.1 hy
      have hstart := start_of_mem_segmentsFrom hsegment
      rcases hrest with rfl | hrest
      · cases hsegment
      · omega
    have hlast : width earlier ≤ width earlier + rest := Nat.le_add_right _ _
    -- Some segment is not behind the offset, so the place is not in front of all of them.
    rw [search_append hxs hlast hys, if_neg (by split <;> simp), indexChecked_append hxs hlast hys,
      Checked.ok_bind, hlength, Checked.get_append_cons, Checked.ok_bind, Checked.sub_eq hlast,
      Checked.ok_bind, sourceOffset_append]
    dsimp only
    rw [Nat.add_sub_cancel_left]
    -- In the last line the offset is cut back to its length, in any other it is not beyond it.
    rcases hrest with rfl | hrest
    · rfl
    · rw [sourceOffset_cons_of_le _ _ hrest, Nat.min_eq_left hrest]
      rfl

/-- Every element of a markup without a byte order mark is cut out of it. -/
theorem textOfChecked_eq {doc : DocComment} (hmark : doc.markup.head? ≠ some '\uFEFF')
    {element : Element} (h : element ∈ doc.elements) :
    doc.textOfChecked element = .ok (doc.textOf element) := by
  have hmem : element ∈ (Forest.read doc.markup).elements := by
    rw [elements, doc.forest_eq] at h
    exact h
  have hstart := Forest.isBoundary_start hmark hmem
  have hstop := Forest.isBoundary_stop hmark hmem
  have hle : element.tag.span.start ≤ element.tag.span.stop := by
    obtain ⟨-, -, hinside⟩ := (Forest.areNested_nodes hmark).of_mem_elements hmem
    exact Nat.le_of_succ_le hinside.start_le_stop
  have hend := le_byteLength_of_isBoundary hstop
  rw [textOfChecked, Nat.min_eq_left hend, Nat.min_eq_left hle, sliceChecked_eq hle hstart hstop,
    textOf]

/-! ## Doc comments of a source -/

/-- The lines, the nodes and the place of the markup without an end, of the doc comment that comments
of a source make, if there are any. -/
def readChecked (source : List Char) :
    List Code.Node → Checked (Option (List Line × List Node × Option Nat))
  | [] => .ok none
  | comment :: comments => do
    let lines ← linesChecked source (comment :: comments)
    let (nodes, errorPosition) ← Forest.readChecked (markupOf lines)
    return some (lines, nodes, errorPosition)

/-- No step on the way from the bytes of a source to a doc comment, to its elements and to places in
the source stops with a fault, and each gives what it should. -/
structure IsReadSafely (source : List Char) (comments : List Code.Node) : Prop where
  /-- The comments are read as one piece of markup, if there are any. -/
  read : readChecked source comments = .ok ((ofNodes? source comments).map fun doc =>
    (doc.lines, doc.forest.nodes, doc.forest.errorPosition))
  /-- Every element is cut out of the markup. -/
  textOf : ∀ doc, ofNodes? source comments = some doc → ∀ element ∈ doc.elements,
    doc.textOfChecked element = .ok (doc.textOf element)
  /-- Every offset, inside of the markup or not, leads to its place in the source. -/
  sourceOffset : ∀ doc, ofNodes? source comments = some doc → ∀ offset,
    doc.sourceOffsetChecked offset = .ok (doc.sourceOffset offset)
  /-- Every offset, inside of the source or not, leads to its line and its column. -/
  locate : ∀ offset, locateChecked source offset = .ok (Text.locate source offset)
  /-- The tables in which offsets are searched for are ascending. -/
  ascending : (lineStarts source).Pairwise (· < ·) ∧
    ∀ doc, ofNodes? source comments = some doc →
      (doc.segments.map (·.start)).Pairwise (· < ·)

/-- Comments between boundaries of a source are read without a fault, if their markup does not begin
with a byte order mark. -/
theorem isReadSafely {source : List Char} {comments : List Code.Node}
    (hplaces : ∀ comment ∈ comments, comment.start ≤ comment.stop ∧
      isBoundary comment.start source = true ∧ isBoundary comment.stop source = true)
    (hmark : (markupOf (comments.flatMap fun comment =>
      bodyLines comment.start (comment.text source))).head? ≠ some '\uFEFF') :
    IsReadSafely source comments where
  read := by
    cases comments with
    | nil => rfl
    | cons comment comments =>
      rw [readChecked, linesChecked_eq hplaces, Checked.ok_bind, Forest.readChecked_eq hmark,
        ofNodes?_eq_some source (List.cons_ne_nil comment comments)]
      rfl
  textOf doc hdoc element helement := by
    have hne : comments ≠ [] := by
      rintro rfl
      cases hdoc
    rw [ofNodes?_eq_some source hne] at hdoc
    obtain rfl := Option.some.inj hdoc
    refine textOfChecked_eq ?_ helement
    exact hmark
  sourceOffset doc _ offset := doc.sourceOffsetChecked_eq offset
  locate offset := locateChecked_eq source offset
  ascending := ⟨pairwise_lineStarts source, fun doc _ => pairwise_start_segmentsFrom 0 doc.lines⟩

/-- A line comment and a block whose markup has an open element, a tag without a name, a reference, and
a tag without an end. -/
def brokenComments : List Code.Node :=
  [.mk ⟨"comment", true, false, 2, 16, none⟩ [], .mk ⟨"comment", true, false, 17, 41, none⟩ []]

/-- Reading breaks off at the last tag, but not with a fault. -/
theorem isReadSafely_brokenComments :
    let source := "é/// <a>é < b>\n/** &lt;ü\n * é<c é */".toList
    (∀ comment ∈ brokenComments, comment.start ≤ comment.stop ∧
      isBoundary comment.start source = true ∧ isBoundary comment.stop source = true) ∧
    (markupOf (brokenComments.flatMap fun comment =>
      bodyLines comment.start (comment.text source))).head? ≠ some '\uFEFF' ∧
    (ofNodes? source brokenComments).bind (·.forest.errorPosition) = some 23 ∧
    IsReadSafely source brokenComments := by
  intro source
  have hplaces : ∀ comment ∈ brokenComments, comment.start ≤ comment.stop ∧
      isBoundary comment.start source = true ∧ isBoundary comment.stop source = true := by
    decide
  have hmark : (markupOf (brokenComments.flatMap fun comment =>
      bodyLines comment.start (comment.text source))).head? ≠ some '\uFEFF' := by
    decide +kernel
  exact ⟨hplaces, hmark, by decide +kernel, isReadSafely hplaces hmark⟩

end DocComment
end DocAudit

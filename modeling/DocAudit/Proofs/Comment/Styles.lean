import DocAudit.Proofs.Comment.Lines
import DocAudit.Proofs.Markup.Padding

/-!
# Two styles of doc comments

The same lines are written as line comments, one for each of them, or as a block with a star in front
of each. The body of the block has two more lines, which are empty: what follows the opening sign, and
what stands in front of the closing sign. So the markup of the block is that of the line comments
between two line feeds, which are blanks, and a check sees no difference.

* `lineComment`, `blockComment`: the texts of the comments;
* `map_text_bodyLines_lineComment`, `map_text_bodyLines_blockComment`: the lines of their bodies;
* `DocComment.agreesWith_block`: what is read from them agrees.
-/

namespace DocAudit

open Markup Text

namespace Comment

/-- How a line ends. -/
inductive LineBreak
  /-- With a line feed. -/
  | feed
  /-- With a carriage return and a line feed. -/
  | returnFeed
deriving DecidableEq, Repr

/-- What stands in front of the line feed. -/
def LineBreak.returns : LineBreak → List Char
  | feed => []
  | returnFeed => ['\r']

/-- The text of a line break. -/
def LineBreak.text (lineBreak : LineBreak) : List Char :=
  lineBreak.returns ++ ['\n']

/-- A line as a comment. -/
def lineComment (line : List Char) : List Char :=
  lineSign ++ ' ' :: line

/-- A line in a block. -/
def starredLine (line : List Char) : List Char :=
  ' ' :: '*' :: ' ' :: line

/-- The lines in a block, each with its end. -/
def starredLines (lineBreak : LineBreak) (lines : List (List Char)) : List Char :=
  lines.flatMap fun line => starredLine line ++ lineBreak.text

/-- Lines as a block. -/
def blockComment (lineBreak : LineBreak) (lines : List (List Char)) : List Char :=
  blockOpening ++ (lineBreak.text ++ (starredLines lineBreak lines ++ ' ' :: blockClosing))

/-- The text fits into a line. -/
def IsUnbroken (line : List Char) : Prop :=
  '\n' ∉ line ∧ '\r' ∉ line

instance (line : List Char) : Decidable (IsUnbroken line) :=
  inferInstanceAs (Decidable ('\n' ∉ line ∧ '\r' ∉ line))

theorem LineBreak.eq_of_mem_returns {lineBreak : LineBreak} {c : Char}
    (hc : c ∈ lineBreak.returns) : c = '\r' := by
  cases lineBreak with
  | feed => cases hc
  | returnFeed => exact List.mem_singleton.1 hc

theorem LineBreak.feed_notMem_returns (lineBreak : LineBreak) : '\n' ∉ lineBreak.returns := by
  intro hmem
  cases eq_of_mem_returns hmem

theorem notMem_starredLine {line : List Char} {c : Char} (hblank : c ≠ ' ') (hstar : c ≠ '*')
    (hline : c ∉ line) : c ∉ starredLine line :=
  List.not_mem_cons_of_ne_of_not_mem hblank (List.not_mem_cons_of_ne_of_not_mem hstar
    (List.not_mem_cons_of_ne_of_not_mem hblank hline))

/-- The carriage return at the end of a line goes, and nothing else. -/
theorem dropEndWhile_append_returns {line : List Char} (hline : '\r' ∉ line)
    (lineBreak : LineBreak) : dropEndWhile (· == '\r') (line ++ lineBreak.returns) = line := by
  apply dropEndWhile_append
  · intro c hc
    rw [beq_eq_false_iff_ne]
    rintro rfl
    exact hline hc
  · intro c hc
    rw [beq_iff_eq]
    exact LineBreak.eq_of_mem_returns hc

/-! ## Bodies -/

/-- The body of a line comment is the line behind a blank. -/
theorem map_text_bodyLines_lineComment {line : List Char} (hline : IsUnbroken line) (start : Nat) :
    (bodyLines start (lineComment line)).map Line.text = [' ' :: line] := by
  have hsign : dropHead? lineSign (lineComment line) = some (' ' :: line) :=
    dropHead?_eq_some_iff.2 rfl
  have hend : dropEndWhile (fun c => c == '\r' || c == '\n') (' ' :: line ++ []) = ' ' :: line := by
    apply dropEndWhile_append
    · refine List.forall_mem_cons.2 ⟨rfl, fun c hc => ?_⟩
      rw [Bool.or_eq_false_iff, beq_eq_false_iff_ne, beq_eq_false_iff_ne]
      exact ⟨fun h => hline.2 (h ▸ hc), fun h => hline.1 (h ▸ hc)⟩
    · nofun
  rw [List.append_nil] at hend
  rw [bodyLines, hsign]
  show [dropEndWhile _ (' ' :: line)] = _
  rw [hend]

/-- A block has its lines one by one, each with its star, and a blank in front of the closing sign. -/
theorem splitAt_starredLines {lines : List (List Char)} (hlines : ∀ line ∈ lines, IsUnbroken line)
    (lineBreak : LineBreak) :
    splitAt '\n' (starredLines lineBreak lines ++ [' ']) =
      lines.map (fun line => starredLine line ++ lineBreak.returns) ++ [[' ']] := by
  induction lines with
  | nil => rfl
  | cons line lines ih =>
    obtain ⟨hline, hmore⟩ := List.forall_mem_cons.1 hlines
    have hunbroken : '\n' ∉ starredLine line ++ lineBreak.returns :=
      List.not_mem_append (notMem_starredLine (by decide) (by decide) hline.1)
        lineBreak.feed_notMem_returns
    -- The first line goes up to its line feed.
    have hfirst : starredLines lineBreak (line :: lines) ++ [' '] =
        starredLine line ++ lineBreak.returns ++ '\n' :: (starredLines lineBreak lines ++ [' ']) := by
      simp only [starredLines, LineBreak.text, List.flatMap_cons, List.append_assoc,
        List.cons_append, List.nil_append]
    rw [hfirst, splitAt_append_cons hunbroken, ih hmore]
    rfl

/-- Without its blank and its star, a line of a block is the line behind a blank. -/
theorem map_text_laterLines {lines : List (List Char)} (hlines : ∀ line ∈ lines, IsUnbroken line)
    (lineBreak : LineBreak) (start : Nat) :
    (laterLines start
        (lines.map (fun line => starredLine line ++ lineBreak.returns) ++ [[' ']])).map Line.text =
      lines.map (' ' :: ·) ++ [[]] := by
  induction lines generalizing start with
  | nil => rfl
  | cons line lines ih =>
    obtain ⟨hline, hmore⟩ := List.forall_mem_cons.1 hlines
    have hreturn : '\r' ∉ starredLine line :=
      notMem_starredLine (by decide) (by decide) hline.2
    rw [List.map_cons, List.cons_append, laterLines, List.map_cons, ih hmore,
      dropEndWhile_append_returns hreturn]
    rfl

/-- The bodies of line comments are the lines, each behind a blank. -/
theorem map_text_flatMap_lineComment {source : List Char} {comments : List Code.Node}
    {lines : List (List Char)} (hlines : ∀ line ∈ lines, IsUnbroken line)
    (hcomments : List.Forall₂ (fun comment line => comment.text source = lineComment line)
      comments lines) :
    (comments.flatMap fun comment => bodyLines comment.start (comment.text source)).map Line.text =
      lines.map (' ' :: ·) := by
  induction hcomments with
  | nil => rfl
  | cons htext _ ih =>
    obtain ⟨hline, hmore⟩ := List.forall_mem_cons.1 hlines
    rw [List.flatMap_cons, List.map_append, htext, map_text_bodyLines_lineComment hline, ih hmore]
    rfl

/-- The body of a block has an empty line in front of the lines and one behind them. -/
theorem map_text_bodyLines_blockComment {lines : List (List Char)}
    (hlines : ∀ line ∈ lines, IsUnbroken line) (lineBreak : LineBreak) (start : Nat) :
    (bodyLines start (blockComment lineBreak lines)).map Line.text =
      [] :: (lines.map (' ' :: ·) ++ [[]]) := by
  have hsign : dropHead? lineSign (blockComment lineBreak lines) = none := rfl
  have hopening : dropHead? blockOpening (blockComment lineBreak lines) =
      some (lineBreak.text ++ (starredLines lineBreak lines ++ ' ' :: blockClosing)) :=
    dropHead?_eq_some_iff.2 rfl
  -- The first line of the inside is what the line break leaves in front of its line feed.
  have hclosing : lineBreak.text ++ (starredLines lineBreak lines ++ ' ' :: blockClosing) =
      lineBreak.returns ++ '\n' :: (starredLines lineBreak lines ++ [' ']) ++ blockClosing := by
    simp only [LineBreak.text, List.append_assoc, List.cons_append, List.nil_append]
  have hreturns : dropEndWhile (· == '\r') lineBreak.returns = [] :=
    dropEndWhile_append_returns List.not_mem_nil lineBreak
  rw [bodyLines, hsign, hopening, hclosing]
  show (blockLines _ ((dropTail? blockClosing _).getD _)).map _ = _
  rw [dropTail?_append, Option.getD_some, blockLines,
    splitAt_append_cons lineBreak.feed_notMem_returns, splitAt_starredLines hlines]
  show dropEndWhile _ _ :: (laterLines _ _).map Line.text = _
  rw [hreturns, map_text_laterLines hlines]

end Comment

/-! ## Doc comments -/

namespace DocComment

open Comment

/-- The markup of the doc comment that comments make is that of their bodies. -/
theorem exists_markup_ofNodes? (source : List Char) {comments : List Code.Node}
    (hne : comments ≠ []) : ∃ doc, ofNodes? source comments = some doc ∧ doc.markup = joinWith '\n'
      ((comments.flatMap fun comment => bodyLines comment.start (comment.text source)).map
        Line.text) :=
  ⟨_, ofNodes?_eq_some source hne, rfl⟩

/-- Between two line feeds, markup that begins with a blank is read alike. -/
theorem agreesWith_of_markup_eq {doc framed : DocComment} {content : List Char}
    (hcontent : doc.markup = ' ' :: content)
    (hframe : framed.markup = '\n' :: (doc.markup ++ ['\n'])) :
    doc.forest.AgreesWith 1 framed.forest := by
  have hagree : (Forest.read (' ' :: content)).AgreesWith (byteLength ['\n'])
      (Forest.read (['\n'] ++ (' ' :: content ++ ['\n']))) :=
    Forest.agreesWith_between_blanks rfl rfl rfl (by decide) content
  have hforest : doc.forest = Forest.read doc.markup := doc.forest_eq
  have hframed : framed.forest = Forest.read framed.markup := framed.forest_eq
  rw [hforest, hframed, hframe, hcontent]
  exact hagree

/-- The same lines in both styles are read alike: the markup of the block is that of the line comments
between two line feeds, the elements agree one by one, and markup without an end starts one byte
further on. -/
theorem agreesWith_block {source other : List Char} {comments : List Code.Node} {block : Code.Node}
    {lines : List (List Char)} {lineBreak : LineBreak} (hne : lines ≠ [])
    (hlines : ∀ line ∈ lines, IsUnbroken line)
    (hcomments : List.Forall₂ (fun comment line => comment.text source = lineComment line)
      comments lines)
    (hblock : block.text other = blockComment lineBreak lines) :
    ∃ lineDoc blockDoc, ofNodes? source comments = some lineDoc ∧
      ofNodes? other [block] = some blockDoc ∧
      lineDoc.markup = joinWith '\n' (lines.map (' ' :: ·)) ∧
      blockDoc.markup = '\n' :: (lineDoc.markup ++ ['\n']) ∧
      List.Forall₂ Element.AgreesWith lineDoc.elements blockDoc.elements ∧
      blockDoc.forest.errorPosition = lineDoc.forest.errorPosition.map (· + 1) := by
  have hnodes : comments ≠ [] := by
    rintro rfl
    exact hne (List.forall₂_nil_left_iff.1 hcomments)
  obtain ⟨lineDoc, hlineDoc, hlineMarkup⟩ := exists_markup_ofNodes? source hnodes
  obtain ⟨blockDoc, hblockDoc, hblockMarkup⟩ :=
    exists_markup_ofNodes? other (List.cons_ne_nil block [])
  rw [map_text_flatMap_lineComment hlines hcomments] at hlineMarkup
  have hframe : blockDoc.markup = '\n' :: (lineDoc.markup ++ ['\n']) := by
    rw [hblockMarkup, List.flatMap_singleton, hblock, map_text_bodyLines_blockComment hlines,
      joinWith_between_nil _ (fun h => hne (List.map_eq_nil_iff.1 h)), hlineMarkup]
  -- Every line begins with a blank, and so does the markup.
  obtain ⟨content, hcontent⟩ : ∃ content, lineDoc.markup = ' ' :: content := by
    obtain ⟨line, more, rfl⟩ := List.exists_cons_of_ne_nil hne
    rw [hlineMarkup, List.map_cons, joinWith_cons]
    exact ⟨_, rfl⟩
  have hagree : lineDoc.forest.AgreesWith 1 blockDoc.forest :=
    agreesWith_of_markup_eq hcontent hframe
  exact ⟨lineDoc, blockDoc, hlineDoc, hblockDoc, hlineMarkup, hframe, hagree.elements,
    hagree.errorPosition⟩

/-- Lines with a loose ampersand, an element that stays open and a tag without an end. -/
def unfinishedLines : List (List Char) :=
  ["<summary>1 & 2 <c>".toList, "</summary> <p".toList]

/-- The lines as line comments. -/
def unfinishedComments : List Code.Node :=
  [.mk ⟨"comment", true, false, 0, 22, none⟩ [], .mk ⟨"comment", true, false, 23, 40, none⟩ []]

/-- The lines as a block. -/
def unfinishedBlock : Code.Node :=
  .mk ⟨"comment", true, false, 2, 51, none⟩ []

/-- Both styles of the unfinished lines. -/
theorem agreesWith_block_unfinished :
    let source := "/// <summary>1 & 2 <c>\n/// </summary> <p".toList
    let other := "  /**\r\n * <summary>1 & 2 <c>\r\n * </summary> <p\r\n */".toList
    unfinishedLines ≠ [] ∧ (∀ line ∈ unfinishedLines, IsUnbroken line) ∧
      List.Forall₂ (fun comment line => comment.text source = lineComment line) unfinishedComments
        unfinishedLines ∧
      unfinishedBlock.text other = blockComment .returnFeed unfinishedLines ∧
      ∃ lineDoc blockDoc, ofNodes? source unfinishedComments = some lineDoc ∧
        ofNodes? other [unfinishedBlock] = some blockDoc ∧
        lineDoc.markup = joinWith '\n' (unfinishedLines.map (' ' :: ·)) ∧
        blockDoc.markup = '\n' :: (lineDoc.markup ++ ['\n']) ∧
        List.Forall₂ Element.AgreesWith lineDoc.elements blockDoc.elements ∧
        blockDoc.forest.errorPosition = lineDoc.forest.errorPosition.map (· + 1) := by
  intro source other
  have hne : unfinishedLines ≠ [] := List.cons_ne_nil _ _
  have hlines : ∀ line ∈ unfinishedLines, IsUnbroken line := by decide
  have hcomments : List.Forall₂ (fun comment line => comment.text source = lineComment line)
      unfinishedComments unfinishedLines :=
    .cons (by decide) (.cons (by decide) .nil)
  have hblock : unfinishedBlock.text other = blockComment .returnFeed unfinishedLines := by
    decide
  exact ⟨hne, hlines, hcomments, hblock, agreesWith_block hne hlines hcomments hblock⟩

end DocComment
end DocAudit

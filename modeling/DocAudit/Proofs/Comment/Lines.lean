import DocAudit.Comment.Basic
import DocAudit.Proofs.Text.Cuts

/-!
# Where the lines of a body stand

The lines of a body keep the text between the signs of a comment. Each of them is a part of the
source at the place it names, and they follow one another inside the comment.

* `LiesIn`: lines that follow one another between two places of a source;
* `liesIn_bodyLines`: the lines of a comment lie inside the comment;
* `liesIn_flatMap`: so do the lines of comments that follow one another.
-/

namespace DocAudit.Comment

open Text

/-- The text of the line stands in the source at the place of the line. -/
def Line.OccursIn (source : List Char) (line : Line) : Prop :=
  ∃ before after, source = before ++ (line.text ++ after) ∧ byteLength before = line.source

/-- The place just past the text of the line. -/
def Line.stop (line : Line) : Nat :=
  line.source + byteLength line.text

/-- The lines are parts of the source and follow one another between two places. -/
inductive LiesIn (source : List Char) : (start stop : Nat) → List Line → Prop
  /-- No lines lie between any two places. -/
  | nil {start stop : Nat} : start ≤ stop → LiesIn source start stop []
  /-- A line is followed by lines behind its end. -/
  | cons {start stop : Nat} {line : Line} {lines : List Line} :
      start ≤ line.source → line.OccursIn source → LiesIn source line.stop stop lines →
        LiesIn source start stop (line :: lines)

namespace LiesIn

variable {source : List Char} {start middle stop : Nat} {line : Line} {lines : List Line}

theorem start_le_stop (h : LiesIn source start stop lines) : start ≤ stop := by
  induction h with
  | nil hle => exact hle
  | @cons _ _ line _ hstart _ _ ih => exact Nat.le_trans (Nat.le_add_right_of_le hstart) ih

theorem occursIn (h : LiesIn source start stop lines) (hmem : line ∈ lines) :
    line.OccursIn source := by
  induction h with
  | nil => cases hmem
  | cons _ hoccurs _ ih =>
    rcases List.mem_cons.1 hmem with rfl | hmem
    · exact hoccurs
    · exact ih hmem

/-- Lines lie in any wider stretch as well. -/
theorem widen (h : LiesIn source middle stop lines) (hle : start ≤ middle) :
    LiesIn source start stop lines := by
  cases h with
  | nil hstop => exact .nil (Nat.le_trans hle hstop)
  | cons hstart hoccurs hlater => exact .cons (Nat.le_trans hle hstart) hoccurs hlater

/-- Lines may be followed by lines that lie further on. -/
theorem append {later : List Line} (h : LiesIn source start middle lines)
    (hlater : LiesIn source middle stop later) : LiesIn source start stop (lines ++ later) := by
  induction h with
  | nil hle => exact hlater.widen hle
  | cons hstart hoccurs _ ih => exact .cons hstart hoccurs (ih hlater)

/-- A line of a part of the source lies in that part. -/
theorem singleton {before part after : List Char} (head tail : List Char)
    (hsource : source = before ++ (part ++ after)) (hpart : part = head ++ (line.text ++ tail))
    (hplace : line.source = byteLength before + byteLength head) :
    LiesIn source (byteLength before) (byteLength before + byteLength part) [line] := by
  refine .cons (by omega) ⟨before ++ head, tail ++ after, ?_, ?_⟩ (.nil ?_)
  · rw [hsource, hpart]
    simp only [List.append_assoc]
  · rw [byteLength_append, hplace]
  · rw [Line.stop, hplace, hpart, byteLength_append, byteLength_append]
    omega

end LiesIn

variable {source : List Char}

/-- A later line of a block is what follows its blanks and its star. -/
theorem exists_stripDecoration (start : Nat) (line : List Char) :
    ∃ head, line = head ++ (stripDecoration start line).text ∧
      (stripDecoration start line).source = start + byteLength head := by
  have hline : line = line.takeWhile isBlankChar ++ trimStart line :=
    List.takeWhile_append_dropWhile.symm
  rw [stripDecoration]
  split
  · -- One star goes together with the blanks in front of it.
    next content htrim =>
    refine ⟨line.takeWhile isBlankChar ++ ['*'], ?_, ?_⟩
    · rw [List.append_assoc, List.singleton_append, ← htrim]
      exact hline
    · rw [byteLength_append]
      rfl
  · exact ⟨line.takeWhile isBlankChar, hline, rfl⟩

/-- The later lines of a block lie where the block has them, each behind a line feed. -/
theorem liesIn_laterLines (before : List Char) (later : List (List Char)) (after : List Char)
    (hsource : source = before ++ ((later.flatMap fun line => '\n' :: line) ++ after)) :
    LiesIn source (byteLength before)
      (byteLength before + byteLength (later.flatMap fun line => '\n' :: line))
      (laterLines (byteLength before + 1) later) := by
  induction later generalizing before with
  | nil => exact .nil (Nat.le_add_right _ _)
  | cons line later ih =>
    rw [List.flatMap_cons] at hsource ⊢
    rw [List.append_assoc] at hsource
    -- The first of the lines lies between its line feed and the next.
    have hfeed (cs : List Char) : byteLength ('\n' :: cs) = 1 + byteLength cs := rfl
    have hfirst : LiesIn source (byteLength before) (byteLength before + byteLength ('\n' :: line))
        [stripDecoration (byteLength before + 1) (dropEndWhile (· == '\r') line)] := by
      obtain ⟨tail, htail⟩ := exists_dropEndWhile_append (· == '\r') line
      obtain ⟨head, hhead, hplace⟩ :=
        exists_stripDecoration (byteLength before + 1) (dropEndWhile (· == '\r') line)
      apply LiesIn.singleton ('\n' :: head) tail hsource
      · rw [List.cons_append, ← List.append_assoc, ← hhead, ← htail]
      · rw [hplace, hfeed]
        omega
    -- The others follow behind it.
    have hrest := ih (before ++ '\n' :: line) (by rw [hsource, List.append_assoc])
    rw [byteLength_append] at hrest
    have hnext : byteLength before + byteLength ('\n' :: line) + 1 =
        byteLength before + 1 + byteLength line + 1 := by
      rw [hfeed]
      omega
    rw [hnext] at hrest
    rw [laterLines, byteLength_append, ← Nat.add_assoc]
    exact hfirst.append hrest

/-- The lines of a block lie inside it. -/
theorem liesIn_blockLines (before inside after : List Char)
    (hsource : source = before ++ (inside ++ after)) :
    LiesIn source (byteLength before) (byteLength before + byteLength inside)
      (blockLines (byteLength before) inside) := by
  have hjoin := joinWith_splitAt '\n' inside
  rw [blockLines]
  split
  · exact .nil (Nat.le_add_right _ _)
  · next first later hsplit =>
    rw [hsplit, joinWith_cons] at hjoin
    rw [← hjoin, List.append_assoc] at hsource
    obtain ⟨tail, htail⟩ := exists_dropEndWhile_append (· == '\r') first
    have hfirst : LiesIn source (byteLength before) (byteLength before + byteLength first)
        [⟨byteLength before, dropEndWhile (· == '\r') first⟩] :=
      LiesIn.singleton [] tail hsource htail rfl
    have hlater := liesIn_laterLines (before ++ first) later after
      (hsource.trans (List.append_assoc _ _ _).symm)
    rw [byteLength_append] at hlater
    rw [← hjoin, byteLength_append, ← Nat.add_assoc]
    exact hfirst.append hlater

/-- The lines of a comment lie inside the comment. -/
theorem liesIn_bodyLines {before comment after : List Char}
    (hsource : source = before ++ (comment ++ after)) :
    LiesIn source (byteLength before) (byteLength before + byteLength comment)
      (bodyLines (byteLength before) comment) := by
  rw [bodyLines]
  split
  · -- A line comment has one line: what follows the sign, up to the line break.
    next body hbody =>
    rw [dropHead?_eq_some_iff] at hbody
    obtain ⟨tail, htail⟩ := exists_dropEndWhile_append (fun c => c == '\r' || c == '\n') body
    apply LiesIn.singleton lineSign tail hsource
    · rw [← htail, hbody]
    · rfl
  · split
    · next body hbody =>
      rw [dropHead?_eq_some_iff] at hbody
      -- The closing sign may be missing.
      obtain ⟨closing, hclosing⟩ :
          ∃ closing, body = (dropTail? blockClosing body).getD body ++ closing := by
        cases htail : dropTail? blockClosing body with
        | none => exact ⟨[], (List.append_nil body).symm⟩
        | some inside => exact ⟨blockClosing, eq_append_of_dropTail? htail⟩
      generalize (dropTail? blockClosing body).getD body = inside at hclosing
      have hbehind : source = before ++ blockOpening ++ (inside ++ (closing ++ after)) := by
        rw [hsource, hbody, hclosing]
        simp only [List.append_assoc]
      have hinside := liesIn_blockLines _ _ _ hbehind
      rw [byteLength_append] at hinside
      have hlength : byteLength comment =
          byteLength blockOpening + byteLength inside + byteLength closing := by
        rw [hbody, hclosing, byteLength_append, byteLength_append, Nat.add_assoc]
      have hend := hinside.append (.nil (Nat.le_add_right _ (byteLength closing)))
      rw [List.append_nil] at hend
      rw [hlength, ← Nat.add_assoc, ← Nat.add_assoc]
      exact hend.widen (Nat.le_add_right _ _)
    · exact .nil (Nat.le_add_right _ _)

/-- The lines of a comment node lie inside the node. -/
theorem liesIn_bodyLines_text {node : Code.Node} (hle : node.start ≤ node.stop)
    (hstart : isBoundary node.start source = true) (hstop : isBoundary node.stop source = true) :
    LiesIn source node.start node.stop (bodyLines node.start (node.text source)) := by
  obtain ⟨before, after, hsource, hbefore, hlength⟩ := exists_around_slice hle hstart hstop
  have hlines := liesIn_bodyLines hsource
  rw [hbefore, hlength] at hlines
  exact hlines

/-- The lines of comments that follow one another lie between the places around the comments. -/
theorem liesIn_flatMap {start stop : Nat} {comments : List Code.Node}
    {linesOf : Code.Node → List Line}
    (hlines : ∀ comment ∈ comments, LiesIn source comment.start comment.stop (linesOf comment))
    (hapart : comments.Pairwise fun comment later => comment.stop ≤ later.start)
    (hle : start ≤ stop)
    (hinside : ∀ comment ∈ comments, start ≤ comment.start ∧ comment.stop ≤ stop) :
    LiesIn source start stop (comments.flatMap linesOf) := by
  induction comments generalizing start with
  | nil => exact .nil hle
  | cons comment comments ih =>
    obtain ⟨hfirst, hrest⟩ := List.pairwise_cons.1 hapart
    obtain ⟨hstart, hstop⟩ := hinside comment List.mem_cons_self
    rw [List.flatMap_cons]
    refine ((hlines comment List.mem_cons_self).widen hstart).append (ih ?_ hrest hstop ?_)
    · intro later hlater
      exact hlines later (List.mem_cons_of_mem _ hlater)
    · intro later hlater
      exact ⟨hfirst later hlater, (hinside later (List.mem_cons_of_mem _ hlater)).2⟩

end DocAudit.Comment

namespace DocAudit.DocComment

/-- Comments that follow one another make a doc comment of the lines of all of them. -/
theorem ofNodes?_eq_some (source : List Char) {comments : List Code.Node} (hne : comments ≠ []) :
    ofNodes? source comments = some (ofLines (comments.head hne).start (comments.getLast hne).stop
      (comments.flatMap fun comment =>
        Comment.bodyLines comment.start (comment.text source))) := by
  rw [ofNodes?, List.head?_eq_some_head hne, List.getLast?_eq_some_getLast hne]
  rfl

end DocAudit.DocComment

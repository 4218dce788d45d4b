import DocAudit.Proofs.Code.Tree
import DocAudit.Proofs.Detector.Elements
import DocAudit.Proofs.Markup.TagText

/-!
# Start tags in running text

Beside the forest of a comment, the text of its markup is searched for start tags that no end tag
follows. The search knows less of markup than the reader: it looks for names after a `<` and for end
tags by their letters. Where reading finds every element complete, the search can still find a start
tag without an end tag, but only one that the reader sees differently.

* `RawTag.exists_of_mem_all`: a start tag in running text starts at a `<`;
* `RawTag.IsDisputed`: the ways in which the reader sees a start tag differently;
* `DocComment.isDisputed_of_isUnclosed`: of a complete comment, the search finds no other start tag
  without an end tag;
* `DocComment.exists_isDisputed_of_mem_markupVerdicts`: so no other one is said to have no end tag.
-/

namespace DocAudit

open Markup Text

/-- Characters of a class at the beginning are dropped up to one outside of it. -/
theorem exists_dropWhile_append_cons {p : Char → Bool} {c : Char} (hc : p c = false)
    (xs rest : List Char) :
    ∃ ys, ys <:+ xs ∧ (xs ++ c :: rest).dropWhile p = ys ++ c :: rest := by
  induction xs with
  | nil => exact ⟨[], List.suffix_refl _, List.dropWhile_cons_of_neg (by simp [hc])⟩
  | cons x xs ih =>
    by_cases hx : p x = true
    · obtain ⟨ys, hys, hdrop⟩ := ih
      refine ⟨ys, hys.trans (List.suffix_cons x xs), ?_⟩
      rw [List.cons_append, List.dropWhile_cons_of_pos hx, hdrop]
    · exact ⟨x :: xs, List.suffix_refl _, List.dropWhile_cons_of_neg hx⟩

namespace RawTag

/-! ## The tag at a place -/

section OfText

variable (start : Nat) (cs : List Char)

@[simp]
theorem start_ofText : (ofText start cs).start = start := by
  unfold ofText
  dsimp only
  split <;> rfl

@[simp]
theorem name_ofText : (ofText start cs).name = cs.takeWhile continuesName := by
  unfold ofText
  dsimp only
  split <;> rfl

@[simp]
theorem inside_ofText :
    (ofText start cs).inside = (cs.dropWhile continuesName).takeWhile isInside := by
  unfold ofText
  dsimp only
  split <;> rfl

/-- What comes after a tag is what comes after the name and the inside, without a `>`. -/
theorem isSuffix_after_ofText {left rest : List Char}
    (h : (cs.dropWhile continuesName).dropWhile isInside = left ++ '>' :: rest) :
    rest <:+ (ofText start cs).after := by
  unfold ofText
  dsimp only
  split
  · next after heq =>
    -- The sign behind the inside is this `>` or one in front of it.
    rw [h] at heq
    cases left with
    | nil =>
      obtain ⟨-, rfl⟩ := List.cons.inj heq
      exact List.suffix_refl _
    | cons c left =>
      obtain ⟨-, rfl⟩ := List.cons.inj heq
      exact ⟨left ++ ['>'], by simp⟩
  · -- A tag cut off by another `<` leaves that one and all that follows.
    rw [h]
    exact ⟨left ++ ['>'], by simp⟩

end OfText

/-- What follows the end of a tag comes after the start tag that running text shows at its place. -/
theorem isSuffix_after_of_body (start : Nat) (body rest : List Char) :
    rest <:+ (ofText start (body ++ '>' :: rest)).after := by
  obtain ⟨beyond, -, hbeyond⟩ :=
    exists_dropWhile_append_cons (p := continuesName) (c := '>') (by decide) body rest
  obtain ⟨left, -, hleft⟩ :=
    exists_dropWhile_append_cons (p := isInside) (c := '>') (by decide) beyond rest
  exact isSuffix_after_ofText start _ (by rw [hbeyond, hleft])

/-- A start tag in running text starts at a `<`, and a name follows that. -/
theorem exists_of_mem_all {offset : Nat} {cs : List Char} {tag : RawTag} (h : tag ∈ all offset cs) :
    ∃ before after, cs = before ++ '<' :: after ∧ after.head?.any startsName = true ∧
      tag = ofText (offset + byteLength before) after := by
  induction cs generalizing offset with
  | nil => cases h
  | cons c cs ih =>
    rw [all, List.mem_append] at h
    rcases h with h | h
    · split at h
      · next hfirst =>
        obtain ⟨rfl, hname⟩ := hfirst
        exact ⟨[], cs, rfl, hname, List.mem_singleton.1 h⟩
      · cases h
    · obtain ⟨before, after, rfl, hname, rfl⟩ := ih h
      refine ⟨c :: before, after, rfl, hname, ?_⟩
      rw [byteLength_cons, Nat.add_assoc]

/-- At the place of a start tag in running text stands a `<`. -/
theorem standsAt_of_mem_all {cs : List Char} {tag : RawTag} (h : tag ∈ all 0 cs) :
    StandsAt '<' tag.start cs := by
  obtain ⟨before, after, rfl, -, rfl⟩ := exists_of_mem_all h
  exact ⟨before, after, rfl, by rw [start_ofText, Nat.zero_add]⟩

/-! ## End tags by their letters -/

/-- An end tag of the name begins the text when it does so with blanks before its `>`. -/
theorem endsAt_append {name blanks : List Char} (rest : List Char)
    (hblanks : ∀ c ∈ blanks, isSpace c = true) :
    endsAt name ('<' :: '/' :: (name ++ (blanks ++ ['>'])) ++ rest) = true := by
  have hdrop : dropHead? ('<' :: '/' :: name)
      ('<' :: '/' :: (name ++ (blanks ++ ['>'])) ++ rest) = some (blanks ++ '>' :: rest) := by
    rw [dropHead?_eq_some_iff]
    simp
  -- What reading takes for a blank is one for the search too.
  have htrim : trimStart (blanks ++ '>' :: rest) = '>' :: rest := by
    refine dropWhile_append_stop ?_ (by simp; decide)
    intro c hc
    have hspace := hblanks c hc
    simp only [isSpace, Bool.or_eq_true, beq_iff_eq] at hspace
    rcases hspace with ((rfl | rfl) | rfl) | rfl <;> decide
  rw [endsAt, hdrop, Option.any_some, htrim]
  rfl

/-- An end tag in a later part of the text is one in the text. -/
theorem hasEndTag_of_isSuffix {name ys cs : List Char} (h : ys <:+ cs)
    (hends : endsAt name ys = true) : hasEndTag name cs = true := by
  obtain ⟨xs, rfl⟩ := h
  induction xs with
  | nil =>
    cases ys with
    | nil => cases hends
    | cons c ys => rw [List.nil_append, hasEndTag, hends, Bool.true_or]
  | cons x xs ih => rw [List.cons_append, hasEndTag, ih, Bool.or_true]

/-! ## The reader's view -/

/-- The event of number `k` is a tag that begins an element, and the reader meets it at the `<` of
the start tag. -/
structure IsReadAt (tag : RawTag) (cs : List Char) (k : Nat) (reading : Reading)
    (opening : Opening) : Prop where
  /-- The event. -/
  reading_eq : (Forest.readings cs).1[k]? = some reading
  /-- It begins an element. -/
  opening_eq : reading.opening? cs = some opening
  /-- It starts where the start tag does. -/
  place_eq : reading.placeIn cs = tag.start

/-- The reader of the text does not see a start tag and its end as running text shows them. -/
inductive IsDisputed (tag : RawTag) (cs : List Char) : Prop
  /-- No element begins there: the `<` is inside of a comment, a quoted value, another tag or such,
  or reading broke off before. -/
  | noElement (h : ∀ k reading opening, ¬tag.IsReadAt cs k reading opening)
  /-- The tag closes itself, and running text does not show it to its end because an angle bracket
  stands inside. -/
  | bracket {k : Nat} {reading : Reading} {opening : Opening} {name attributes : List Char} {c : Char}
      (h : tag.IsReadAt cs k reading opening) (hevent : reading.event = .emptyTag name attributes)
      (hmem : c ∈ name ++ attributes) (hbracket : isInside c = false)
  /-- The end tag of the element that begins there has another name: the reader takes more characters
  for a name than running text shows, and does not look at a prefix. -/
  | otherEnd {k l : Nat} {reading closing : Reading} {opening : Opening} {name : List Char}
      (h : tag.IsReadAt cs k reading opening)
      (hclosed : ClosedBy cs (Forest.readings cs).1 l
        (elementNumber cs (Forest.readings cs).1 k))
      (hclosing : (Forest.readings cs).1[l]? = some closing)
      (hevent : closing.event = .endTag name) (hname : name ≠ tag.name)

/-- A tag without angle brackets that closes itself shows its slash in running text. -/
theorem getLast?_trimEnd_inside {name attributes : List Char} (start : Nat) (rest : List Char)
    (h : ∀ c ∈ name ++ attributes, isInside c = true) :
    (trimEnd (ofText start (name ++ (attributes ++ '/' :: '>' :: rest))).inside).getLast? =
      some '/' := by
  -- The name may end early in running text, and its rest then counts as inside.
  obtain ⟨beyond, hsuffix, hbeyond⟩ := exists_dropWhile_append_cons (p := continuesName) (c := '/')
    (by decide) (name ++ attributes) ('>' :: rest)
  have hinside : (beyond ++ '/' :: '>' :: rest).takeWhile isInside = beyond ++ ['/'] := by
    rw [← List.singleton_append, ← List.append_assoc]
    refine takeWhile_append_stop ?_ (by simp [isInside])
    intro c hc
    rcases List.mem_append.1 hc with hc | hc
    · exact h c (hsuffix.subset hc)
    · rw [List.mem_singleton.1 hc]
      decide
  have htrim : trimEnd (beyond ++ ['/']) = beyond ++ ['/'] := by
    rw [trimEnd, dropEndWhile, List.reverse_append, List.reverse_singleton, List.singleton_append,
      List.dropWhile_cons_of_neg (by decide), ← List.singleton_append, List.reverse_append,
      List.reverse_reverse, List.reverse_singleton]
  rw [inside_ofText, ← List.append_assoc, hbeyond, hinside, htrim, List.getLast?_concat]

variable {cs : List Char} {tag : RawTag} {k : Nat} {reading : Reading} {opening : Opening}

/-- The text from a start tag on, where the reader meets a tag that begins an element: first that
tag, and later the tags that the reader meets later. -/
theorem IsReadAt.exists_after (h : tag.IsReadAt cs k reading opening) (hmem : tag ∈ all 0 cs) :
    ∃ after, tag = ofText tag.start after ∧ ∃ xs rest, '<' :: after = xs ++ rest ∧
      reading.event.IsTagText xs ∧
      ∀ l later, (Forest.readings cs).1[l]? = some later → k < l →
        ∃ ys left, ys ++ left <:+ rest ∧ later.event.IsTagText ys := by
  obtain ⟨before, after, hcs, -, htag⟩ := exists_of_mem_all hmem
  obtain ⟨front, xs, rest, htext, hplace, htagText, hlater⟩ :=
    Forest.exists_around_of_getElem?_readings h.reading_eq
  have hstart : tag.start = byteLength before := by rw [htag, start_ofText, Nat.zero_add]
  -- Both texts are cut at the same place.
  obtain ⟨-, hafter⟩ := append_inj_of_byteLength_eq (hcs.symm.trans htext)
    (by rw [hplace, h.place_eq, hstart])
  refine ⟨after, by rw [hstart, htag, Nat.zero_add], xs, rest, hafter, htagText, ?_⟩
  intro l later hl hlt
  obtain ⟨between, ys, left, rfl, hys⟩ := hlater l later hl hlt
  exact ⟨ys, left, List.suffix_append _ _, hys⟩

/-- A start tag that the reader takes for a tag that closes itself shows its slash, unless an angle
bracket stands inside of it. -/
theorem IsReadAt.exists_bracket (h : tag.IsReadAt cs k reading opening) (hmem : tag ∈ all 0 cs)
    (hunclosed : tag.isUnclosed = true) {name attributes : List Char}
    (hevent : reading.event = .emptyTag name attributes) :
    ∃ c ∈ name ++ attributes, isInside c = false := by
  obtain ⟨after, htag, xs, rest, hafter, htext, -⟩ := h.exists_after hmem
  rw [hevent, Event.IsTagText] at htext
  by_contra hnone
  have hinside : ∀ c ∈ name ++ attributes, isInside c = true := by
    intro c hc
    by_contra hbracket
    exact hnone ⟨c, hc, Bool.eq_false_iff.2 hbracket⟩
  obtain rfl : after = name ++ (attributes ++ '/' :: '>' :: rest) := by
    rw [htext] at hafter
    simpa using hafter
  have hslash := getLast?_trimEnd_inside tag.start rest hinside
  rw [← htag] at hslash
  simp [isUnclosed, hslash] at hunclosed

/-- A start tag in running text whose element has an end tag of the same name is not taken for
unclosed. -/
theorem IsReadAt.name_ne (h : tag.IsReadAt cs k reading opening) (hmem : tag ∈ all 0 cs)
    (hunclosed : tag.isUnclosed = true) {startName attributes : List Char}
    (hstart : reading.event = .startTag startName attributes) {l : Nat} {closing : Reading}
    (hclosing : (Forest.readings cs).1[l]? = some closing) (hlt : k < l) {name : List Char}
    (hevent : closing.event = .endTag name) : name ≠ tag.name := by
  obtain ⟨after, htag, xs, rest, hafter, htext, hlater⟩ := h.exists_after hmem
  obtain ⟨ys, left, hsuffix, hys⟩ := hlater l closing hclosing hlt
  rw [hstart, Event.IsTagText] at htext
  rw [hevent] at hys
  obtain ⟨blanks, hblanks, rfl⟩ := hys
  obtain rfl : after = (startName ++ attributes) ++ '>' :: rest := by
    rw [htext] at hafter
    simpa using hafter
  have hbehind := isSuffix_after_of_body tag.start (startName ++ attributes) rest
  rw [← htag] at hbehind
  rintro rfl
  have hends := hasEndTag_of_isSuffix (hsuffix.trans hbehind) (endsAt_append left hblanks)
  simp [isUnclosed, hends] at hunclosed

end RawTag

namespace DocComment

variable {doc : DocComment}

/-- In a comment whose elements are all complete, a start tag in running text that no end tag follows
is one that the reader sees differently. -/
theorem isDisputed_of_isUnclosed
    (hcomplete : ∀ element ∈ doc.elements, element.tag.closing.isComplete = true) {tag : RawTag}
    (hmem : tag ∈ RawTag.all 0 doc.markup) (hunclosed : tag.isUnclosed = true) :
    tag.IsDisputed doc.markup := by
  by_cases hread : ∃ k reading opening, tag.IsReadAt doc.markup k reading opening
  swap
  · refine .noElement ?_
    intro k reading opening h
    exact hread ⟨k, reading, opening, h⟩
  obtain ⟨k, reading, opening, hread⟩ := hread
  obtain ⟨name, attributes, hevent, -, -⟩ := Reading.exists_tag_of_opening? hread.opening_eq
  cases hself : opening.closesItself with
  | true =>
    rw [hself, if_pos rfl] at hevent
    obtain ⟨c, hc, hbracket⟩ := hread.exists_bracket hmem hunclosed hevent
    exact .bracket hread hevent hc hbracket
  | false =>
    rw [hself, if_neg Bool.false_ne_true] at hevent
    -- The element that begins here is complete, so it has an end tag.
    have hopening := getElem?_openings_elementNumber hread.reading_eq hread.opening_eq
    rw [← Forest.map_opening_elements, List.getElem?_map] at hopening
    obtain ⟨element, helement, hsame⟩ := Option.map_eq_some_iff.1 hopening
    have hclosing : element.tag.closing = .endTag := by
      refine Tag.closing_eq_endTag (hcomplete element ?_) (hsame ▸ hself)
      rw [elements, doc.forest_eq]
      exact List.mem_of_getElem? helement
    obtain ⟨l, hclosed⟩ := Forest.exists_closedBy_of_closing_eq helement hclosing
    obtain ⟨-, closing, hclosing, _, hname, -⟩ := hclosed.innermost
    obtain ⟨endName, hend⟩ := Event.exists_endTag_of_closingName? hname
    exact .otherEnd hread hclosed hclosing hend
      (hread.name_ne hmem hunclosed hevent hclosing (lt_of_closedBy hclosed) hend)

/-- No complete element is said to have no end tag. -/
theorem smell_ne_of_isComplete {element : Element} (h : element.tag.closing.isComplete = true)
    {verdict : Verdict} (hmem : verdict ∈ doc.elementVerdicts element) :
    verdict.smell ≠ .missingEndTag := by
  intro hsmell
  have hunclosed := isUnclosed_of_mem_elementVerdicts hmem hsmell
  rw [isUnclosed, Bool.and_eq_true, beq_iff_eq] at hunclosed
  rw [hunclosed.2] at h
  cases h

/-- In a comment whose elements are all complete, only start tags of running text that the reader
sees differently are said to have no end tag. -/
theorem exists_isDisputed_of_mem_markupVerdicts
    (hcomplete : ∀ element ∈ doc.elements, element.tag.closing.isComplete = true)
    {verdict : Verdict} (hmem : verdict ∈ doc.markupVerdicts)
    (hsmell : verdict.smell = .missingEndTag) :
    ∃ tag ∈ RawTag.all 0 doc.markup, verdict = doc.rawVerdict tag ∧ tag.isUnclosed = true ∧
      tag.IsDisputed doc.markup := by
  rcases List.mem_append.1 hmem with hmem | hmem
  · obtain ⟨element, helement, hmem⟩ := List.mem_flatMap.1 hmem
    exact absurd hsmell (smell_ne_of_isComplete (hcomplete element helement) hmem)
  · obtain ⟨tag, htag, hunclosed, rfl⟩ := exists_tag_of_mem_rawVerdicts hmem
    exact ⟨tag, htag, rfl, hunclosed, isDisputed_of_isUnclosed hcomplete htag hunclosed⟩

/-- The one doc comment of a class with a paragraph that is commented out. -/
def withParagraphCommentedOut : DocComment :=
  .ofLines 0 43 [⟨3, " <summary>See <!-- <para> -->.</summary>".toList⟩]

/-- A start tag inside of a comment of the markup is said to have no end tag. -/
theorem exists_isDisputed_withParagraphCommentedOut :
    (∀ element ∈ withParagraphCommentedOut.elements, element.tag.closing.isComplete = true) ∧
      ∃ verdict ∈ withParagraphCommentedOut.markupVerdicts, verdict.smell = .missingEndTag ∧
        ∃ tag ∈ RawTag.all 0 withParagraphCommentedOut.markup,
          verdict = withParagraphCommentedOut.rawVerdict tag ∧ tag.isUnclosed = true ∧
            tag.IsDisputed withParagraphCommentedOut.markup := by
  have hcomplete : ∀ element ∈ withParagraphCommentedOut.elements,
      element.tag.closing.isComplete = true := by
    decide +kernel
  obtain ⟨verdict, hmem, hsmell⟩ : ∃ verdict ∈ withParagraphCommentedOut.markupVerdicts,
      verdict.smell = .missingEndTag := by
    decide +kernel
  exact ⟨hcomplete, verdict, hmem, hsmell,
    exists_isDisputed_of_mem_markupVerdicts hcomplete hmem hsmell⟩

/-- The markup is read to its end with every element complete, and yet some start tag is said to have
no end tag. -/
def IsAccusedThoughComplete (doc : DocComment) : Prop :=
  doc.forest.errorPosition = none ∧
    (∀ element ∈ doc.elements, element.tag.closing.isComplete = true) ∧
    ∃ verdict ∈ doc.markupVerdicts, verdict.smell = .missingEndTag

instance (doc : DocComment) : Decidable doc.IsAccusedThoughComplete :=
  inferInstanceAs (Decidable (_ ∧ _ ∧ _))

/-- Each of the ways to see a start tag differently comes about: it stands in a comment of the markup
or in a quoted value, an angle bracket stands in an attribute, or the name is one with a prefix or
with a sign in it. -/
theorem isAccusedThoughComplete_commentedClass :
    (∃ doc ∈ (Code.SourceFile.commentedClass
        "/// <summary>See <!-- <para> -->.</summary>").docComments, doc.IsAccusedThoughComplete) ∧
      (∃ doc ∈ (Code.SourceFile.commentedClass
        "/// <summary><see cref=\"A<b>.C\"/></summary>").docComments,
        doc.IsAccusedThoughComplete) ∧
      (∃ doc ∈ (Code.SourceFile.commentedClass "/// <param name=\"a>b\"/>").docComments,
        doc.IsAccusedThoughComplete) ∧
      (∃ doc ∈ (Code.SourceFile.commentedClass "/// <summary><c>x</p:c></summary>").docComments,
        doc.IsAccusedThoughComplete) ∧
      ∃ doc ∈ (Code.SourceFile.commentedClass "/// <summary><c|d>x</c|d></summary>").docComments,
        doc.IsAccusedThoughComplete := by
  decide +kernel

end DocComment
end DocAudit

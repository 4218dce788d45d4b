import DocAudit.Proofs.Markup.Prose
import DocAudit.Proofs.Markup.TagText

/-!
# Bare angle brackets in prose

A `<` with a blank behind it begins a tag without a name, and such a tag is only text. But it is a
tag for all that, and goes on to the next `>` outside of quotes. When that `>` stands in the same
text, the tag is a part of the text and nothing else changes; when it does not, the tag takes in what
follows the text, up to the end of the next tag at least.

* `settles`: every tag that a `<` of a text begins ends in the text;
* `Forest.read_renderAll_of_settles`: content with such texts is read as it was written;
* `Forest.read_element_of_unsettled`: an element with another text in front of its end tag is not.
-/

namespace DocAudit.Markup

open DocAudit.Text

/-- The text holds no `&`, and every `<` in it has a blank behind it. -/
def bareOnly : List Char → Bool
  | [] => true
  | c :: cs => c != '&' && (c != '<' || cs.head? == some ' ') && bareOnly cs

/-- Every tag that a `<` of the text begins ends in the text, where the text starts outside of a tag
or inside of one, and then perhaps behind a quote. -/
def settles : (tag : Option (Option Char)) → List Char → Bool
  | tag, [] => tag.isNone
  | none, c :: cs => settles (if c = '<' then some none else none) cs
  | some none, c :: cs =>
    if c = '>' then settles none cs
    else settles (some (if c = '"' ∨ c = '\'' then some c else none)) cs
  | some (some quote), c :: cs => settles (some (if c = quote then none else some quote)) cs

/-- The text is prose with bare `<` in it, each of them followed by a `>` outside of quotes. -/
def isBareProse (content : List Char) : Bool :=
  !content.isEmpty && bareOnly content && settles none content

theorem bareOnly_of_append (xs : List Char) {ys : List Char} (h : bareOnly (xs ++ ys) = true) :
    bareOnly ys = true := by
  induction xs with
  | nil => exact h
  | cons x xs ih =>
    rw [List.cons_append, bareOnly, Bool.and_eq_true] at h
    exact ih h.2

/-- Outside of a tag only a `<` matters. -/
theorem settles_append {xs ys : List Char} (h : ∀ c ∈ xs, c ≠ '<') :
    settles none (xs ++ ys) = settles none ys := by
  induction xs with
  | nil => rfl
  | cons x xs ih =>
    rw [List.cons_append, settles, if_neg (h x List.mem_cons_self),
      ih fun c hc => h c (List.mem_cons_of_mem _ hc)]

/-- A tag that ends in the text has an inside there, and the rest of the text settles. -/
theorem exists_tagBody?_of_settles {quote : Option Char} {cs : List Char}
    (h : settles (some quote) cs = true) :
    ∃ body rest, tagBody? quote cs = some (body, rest) ∧ settles none rest = true := by
  induction cs generalizing quote with
  | nil => cases quote <;> cases h
  | cons c cs ih =>
    cases quote with
    | none =>
      rw [settles] at h
      rw [tagBody?]
      by_cases hc : c = '>'
      · rw [if_pos hc] at h ⊢
        exact ⟨[], cs, rfl, h⟩
      · rw [if_neg hc] at h ⊢
        obtain ⟨body, rest, hbody, hrest⟩ := ih h
        exact ⟨c :: body, rest, by rw [hbody]; rfl, hrest⟩
    | some quote =>
      -- Behind a quote the tag goes on, and so does the text inside of it.
      rw [settles] at h
      rw [tagBody?]
      obtain ⟨body, rest, hbody, hrest⟩ := ih h
      exact ⟨c :: body, rest, by rw [hbody]; rfl, hrest⟩

/-- A tag that begins with a blank has no name. -/
theorem exists_ofTagBody_blank (body : List Char) :
    ∃ attributes, Event.ofTagBody (' ' :: body) = .startTag [] attributes ∨
      Event.ofTagBody (' ' :: body) = .emptyTag [] attributes := by
  rw [Event.ofTagBody]
  cases hslash : dropTail? ['/'] (' ' :: body) with
  | none => exact ⟨_, Or.inl rfl⟩
  | some inside =>
    -- The slash at the end is not the blank at the beginning.
    have hinside := eq_append_of_dropTail? hslash
    cases inside with
    | nil => cases hinside
    | cons first inside =>
      obtain ⟨rfl, -⟩ := List.cons.inj hinside
      exact ⟨_, Or.inr rfl⟩

/-- A bare `<` begins a tag that ends where it does whatever comes after it. -/
theorem scan_nameless_append {cs body rest : List Char}
    (h : tagBody? none cs = some (' ' :: body, rest)) (later : List Char) :
    scan ('<' :: ' ' :: (body ++ ['>']) ++ later) =
      .found (Event.ofTagBody (' ' :: body)) later := by
  have hbody : tagBody? none (' ' :: (body ++ '>' :: later)) = some (' ' :: body, later) :=
    tagBody?_append h later
  have htext : '<' :: ' ' :: (body ++ ['>']) ++ later = '<' :: ' ' :: (body ++ '>' :: later) := by
    simp
  -- The blank tells the tag from an end tag and from what begins with a mark of its own.
  rw [htext, scan, scanMarkup, hbody] <;> simp

/-- A bare `<` is read as text, with all that stands between it and the end of the tag it begins. -/
theorem readsAsText_nameless {cs body rest : List Char}
    (h : tagBody? none cs = some (' ' :: body, rest)) :
    ReadsAsText (fun _ => True) ('<' :: ' ' :: (body ++ ['>'])) ('<' :: ' ' :: (body ++ ['>'])) := by
  refine ReadsAsText.of_attachText (List.cons_ne_nil _ _)
    (fun later _ => scan_nameless_append h later) ?_
  intro before later builder
  have hstart : markupStart (before ++ ('<' :: ' ' :: (body ++ ['>']) ++ later))
      (byteLength before) = byteLength before := markupStart_append before _
  -- A tag without a name gives its text as it stands, whether it closes itself or not.
  obtain ⟨attributes, hevent | hevent⟩ := exists_ofTagBody_blank body
  · rw [hevent, Builder.read, hstart, slice_middle]
    rfl
  · rw [hevent, Builder.read, hstart, slice_middle]
    rfl

/-- The text up to the first mark holds no `<`. -/
theorem ne_of_mem_takeWhile {cs : List Char} {c : Char} (h : c ∈ cs.takeWhile (!isMark ·)) :
    c ≠ '<' := by
  rintro rfl
  exact absurd (List.mem_takeWhile_imp h) (by decide)

/-- A text whose bare `<` all settle is read as that text. -/
theorem readsAsText_of_settles (cs : List Char) (hbare : bareOnly cs = true)
    (hsettles : settles none cs = true) : ReadsAsText AtMarkup cs cs := by
  -- A tag takes more than one character, so the induction is on the length of the text.
  induction hlength : cs.length using Nat.strongRecOn generalizing cs with
  | ind length ih =>
    rcases cs with _ | ⟨c, cs⟩
    · exact ReadsAsText.nil _
    have hfirst := hbare
    rw [bareOnly, Bool.and_eq_true, Bool.and_eq_true, bne_iff_ne] at hfirst
    obtain ⟨⟨hreference, hblank⟩, -⟩ := hfirst
    by_cases hc : c = '<'
    · -- A tag without a name begins here, and the rest of the text comes after its end.
      subst hc
      obtain ⟨body, rest, hbody, hrest⟩ := exists_tagBody?_of_settles hsettles
      obtain rfl := eq_append_of_tagBody? hbody
      cases body with
      | nil => cases hblank
      | cons first body =>
        obtain rfl : first = ' ' := by simpa using hblank
        have hlater := ih rest.length (by simp [← hlength]; omega) rest
          (bareOnly_of_append ('<' :: ' ' :: (body ++ ['>'])) (by simpa using hbare)) hrest rfl
        have hreads := (readsAsText_nameless hbody).append hlater fun _ _ => trivial
        simpa using hreads
    · -- Up to the next `<` there are no marks.
      have hdrop : (c :: cs).dropWhile (!isMark ·) = cs.dropWhile (!isMark ·) :=
        List.dropWhile_cons_of_pos (by simp [isMark, hc, hreference])
      have hsplit := List.takeWhile_append_dropWhile (p := (!isMark ·)) (l := c :: cs)
      have hshorter : ((c :: cs).dropWhile (!isMark ·)).length < length := by
        rw [hdrop, ← hlength, List.length_cons]
        exact Nat.lt_succ_of_le (length_dropWhile_le _ cs)
      rw [← hsplit] at hbare hsettles
      rw [settles_append fun c hc => ne_of_mem_takeWhile hc] at hsettles
      have hreads := ReadsAsText.of_dropWhile
        (ih _ hshorter _ (bareOnly_of_append _ hbare) hsettles rfl)
      rwa [hsplit] at hreads

namespace Forest

/-- Well-formed content with bare `<` in its texts is read as it was written, with every piece of
prose in its place, when each `<` is followed by a `>` outside of quotes in its own text. -/
theorem read_renderAll_of_settles {pieces : List Piece}
    (h : Piece.allWellFormed isBareProse pieces = true)
    (hmark : (Piece.renderAll pieces).head? ≠ some '\uFEFF') :
    (read (Piece.renderAll pieces)).errorPosition = none ∧
      Node.pieces? (read (Piece.renderAll pieces)).nodes = some pieces := by
  have htexts : ∀ content, isBareProse content = true →
      ReadsAsText AtMarkup content (id content) := by
    intro content hcontent
    rw [isBareProse, Bool.and_eq_true, Bool.and_eq_true] at hcontent
    exact readsAsText_of_settles content hcontent.1.2 hcontent.2
  have hall : Piece.keepAll id pieces = pieces := by
    refine Piece.keepAll_eq_self ?_ pieces h
    intro content hcontent
    rw [isBareProse, Bool.and_eq_true, Bool.and_eq_true] at hcontent
    exact ⟨by simpa using hcontent.1.1, rfl⟩
  have hread := pieces?_read_renderAll htexts h hmark
  rwa [hall] at hread

/-- A comparison and a quotation in a summary, around a paragraph with a comparison of its own. -/
theorem read_renderAll_of_settles_comparisons :
    let pieces := [.element "summary" [⟨"a", "b"⟩]
      [.text "a < b > c ", .element "para" [] [.text "< d '>' < e>"], .selfClosed "see" [],
        .text " f"]]
    Piece.allWellFormed isBareProse pieces = true ∧
      (Piece.renderAll pieces).head? ≠ some '\uFEFF' ∧
      (read (Piece.renderAll pieces)).errorPosition = none ∧
        Node.pieces? (read (Piece.renderAll pieces)).nodes = some pieces :=
  have hwell : Piece.allWellFormed isBareProse _ = true := by decide
  ⟨hwell, by decide, read_renderAll_of_settles hwell (by decide)⟩

end Forest

/-! ## An angle bracket that takes in an end tag -/

section Unsettled

variable {name : String} {front tail : List Char}

/-- In front of an end tag, the tag without a name that a bare `<` begins goes on to the end of that
tag, when no `>` and no quote comes before it. -/
theorem tagBody?_of_unsettled (hname : isName name.toList = true)
    (htail : ∀ c ∈ tail, c ≠ '>' ∧ c ≠ '"' ∧ c ≠ '\'') :
    tagBody? none (' ' :: (tail ++ renderEnd name)) =
      some (' ' :: (tail ++ '<' :: '/' :: name.toList), []) := by
  have hplain : ∀ c ∈ ' ' :: (tail ++ '<' :: '/' :: name.toList),
      c ≠ '>' ∧ c ≠ '"' ∧ c ≠ '\'' := by
    intro c hc
    simp only [List.mem_cons, List.mem_append] at hc
    rcases hc with rfl | hc | rfl | rfl | hc
    · decide
    · exact htail c hc
    · decide
    · decide
    · exact plain_of_mem_name hname hc
  have hsplit : ' ' :: (tail ++ renderEnd name) =
      (' ' :: (tail ++ '<' :: '/' :: name.toList)) ++ ['>'] := by
    simp [renderEnd]
  rw [hsplit, tagBody?_append_of_plain _ hplain, tagBody?, if_pos rfl]
  simp

/-- Such a text is read as text together with the end tag. -/
theorem readsAsText_of_unsettled (hname : isName name.toList = true)
    (hfront : ∀ c ∈ front, isMark c = false) (htail : ∀ c ∈ tail, c ≠ '>' ∧ c ≠ '"' ∧ c ≠ '\'') :
    ReadsAsText (fun _ => True) (front ++ '<' :: ' ' :: (tail ++ renderEnd name))
      (front ++ '<' :: ' ' :: (tail ++ renderEnd name)) := by
  have hreads := (ReadsAsText.plain hfront).append
    (readsAsText_nameless (tagBody?_of_unsettled hname htail)) fun rest _ => by simp [AtMark, isMark]
  simpa [renderEnd] using hreads

end Unsettled

namespace Forest

/-- A start tag with nothing but text behind it is read as an element without an end tag, and the
text stands in it. -/
theorem read_renderStart_append {name : String} {attributes : List Attribute} {inside : List Char}
    {nodes : Nat → List Node} (hname : isName name.toList = true)
    (hattributes : attributes.all Attribute.isWritten = true)
    (hreads : ReadsAs (fun _ => True) inside nodes) :
    (read (renderStart name attributes ++ inside)).errorPosition = none ∧
      (read (renderStart name attributes ++ inside)).nodes =
        [.element ⟨name, attributes, ⟨0, byteLength (renderStart name attributes ++ inside)⟩,
          .missing⟩ (nodes (byteLength (renderStart name attributes)))] := by
  have hscan : scan (renderStart name attributes ++ inside) =
      .found (.startTag name.toList (Attribute.renderAll attributes)) inside := by
    simpa [renderStart] using scan_startTag_append hname hattributes inside
  obtain ⟨events, hevents, hbuild⟩ := hreads (renderStart name attributes) [] trivial
  rw [List.append_nil, readAll_nil, List.append_nil] at hevents
  have hreadings : readings (renderStart name attributes ++ inside) =
      (⟨.startTag name.toList (Attribute.renderAll attributes), 0,
          byteLength (renderStart name attributes)⟩ :: events,
        .finished (byteLength (renderStart name attributes) + byteLength inside)) := by
    rw [readings_eq_readAll (by simp [renderStart]), readAll_append 0 hscan, Nat.zero_add, hevents]
  -- The start tag opens the element, the texts go into it, and nothing closes it.
  have hbuilder : (readings (renderStart name attributes ++ inside)).1.foldl
      (Builder.read (renderStart name attributes ++ inside)) .empty =
        ⟨[], [⟨name, attributes, 0, nodes (byteLength (renderStart name attributes))⟩]⟩ := by
    have hopen := read_renderStart hname hattributes [] inside .empty
      (byteLength (renderStart name attributes))
    rw [List.nil_append, byteLength_nil] at hopen
    have hbuilt := hbuild ⟨[], [⟨name, attributes, 0, []⟩]⟩
    rw [List.append_nil, Builder.attachAll_of_open, List.nil_append] at hbuilt
    rw [hreadings, List.foldl_cons, hopen]
    exact hbuilt
  refine ⟨by rw [read, hreadings], ?_⟩
  show ofBuilder _ ((readings _).1.foldl (Builder.read _) .empty) (readings _).2 = _
  rw [hbuilder, hreadings]
  rfl

/-- Where a bare `<` of an element is followed by no `>` and no quote, the tag that it begins takes in
the end tag: the element is read as one without an end tag, and its end tag as prose. -/
theorem read_element_of_unsettled {name : String} {attributes : List Attribute}
    {front tail : List Char} (hname : isName name.toList = true)
    (hattributes : attributes.all Attribute.isWritten = true)
    (hfront : ∀ c ∈ front, isMark c = false) (htail : ∀ c ∈ tail, c ≠ '>' ∧ c ≠ '"' ∧ c ≠ '\'') :
    let inside := front ++ '<' :: ' ' :: (tail ++ renderEnd name)
    ∃ children, Node.AreTexts children inside ∧
      (read (renderStart name attributes ++ inside)).errorPosition = none ∧
      (read (renderStart name attributes ++ inside)).nodes =
        [.element ⟨name, attributes, ⟨0, byteLength (renderStart name attributes ++ inside)⟩,
          .missing⟩ children] := by
  intro inside
  obtain ⟨nodes, hreads, htexts⟩ := readsAsText_of_unsettled hname hfront htail
  exact ⟨_, htexts _, read_renderStart_append hname hattributes hreads⟩

end Forest
end DocAudit.Markup

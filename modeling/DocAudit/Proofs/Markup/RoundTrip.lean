import DocAudit.Proofs.Markup.WrittenForm

/-!
# Reading back what is written

Well-formed content that is written down and read again is the content it was: the same names,
attributes, texts, nesting and closing marks, each piece with the span of its own rendering.

The proof says of a text what it reads as, wherever it stands (`ReadsAs`), and puts such texts
together: one after the other, and between the two tags of an element. How a text without tags reads
is left open until the end.

* `Piece.readsAs_renderAll`: content reads as its pieces do, given how its texts read;
* `Forest.read_renderAll`: the round trip.
-/

namespace DocAudit.Markup

open DocAudit.Text

/-- A piece of content as someone writes it. -/
inductive Piece
  /-- A text. -/
  | text (content : String)
  /-- An element whose tag closes itself. -/
  | selfClosed (name : String) (attributes : List Attribute)
  /-- An element with a start tag, some content and an end tag. -/
  | element (name : String) (attributes : List Attribute) (children : List Piece)
deriving Repr

/-- A start tag. -/
def renderStart (name : String) (attributes : List Attribute) : List Char :=
  '<' :: (tagInside name attributes ++ ['>'])

/-- A tag that closes itself. -/
def renderEmpty (name : String) (attributes : List Attribute) : List Char :=
  '<' :: (tagInside name attributes ++ ['/', '>'])

/-- An end tag. -/
def renderEnd (name : String) : List Char :=
  '<' :: '/' :: (name.toList ++ ['>'])

namespace Piece

mutual

/-- A piece as it is written. -/
def render : Piece → List Char
  | text content => content.toList
  | selfClosed name attributes => renderEmpty name attributes
  | element name attributes children =>
    renderStart name attributes ++ (renderAll children ++ renderEnd name)

/-- Pieces as they are written, one after the other. -/
def renderAll : List Piece → List Char
  | [] => []
  | piece :: pieces => piece.render ++ renderAll pieces

end

/-- The piece is a text. -/
def isText : Piece → Bool
  | text _ => true
  | _ => false

mutual

/-- Names are names, values can stand between quotes, texts are of the given kind, and no two texts
stand side by side. -/
def isWellFormed (isContent : List Char → Bool) : Piece → Bool
  | text content => isContent content.toList
  | selfClosed name attributes => isName name.toList && attributes.all Attribute.isWritten
  | element name attributes children =>
    isName name.toList && attributes.all Attribute.isWritten && allWellFormed isContent children

/-- All pieces are well-formed, and no two texts stand side by side. -/
def allWellFormed (isContent : List Char → Bool) : List Piece → Bool
  | [] => true
  | piece :: pieces =>
    piece.isWellFormed isContent && !(piece.isText && pieces.head?.any isText) &&
      allWellFormed isContent pieces

end

mutual

/-- The nodes of a piece that stands at `start`, where `texts` says what becomes of a text. The span
of an element is that of its rendering. -/
def nodes (texts : String → Nat → List Node) (start : Nat) : Piece → List Node
  | text content => texts content start
  | selfClosed name attributes =>
    [.element ⟨name, attributes, ⟨start, start + byteLength (renderEmpty name attributes)⟩,
      .selfClosing⟩ []]
  | element name attributes children =>
    [.element ⟨name, attributes,
      ⟨start, start + byteLength (render (element name attributes children))⟩, .endTag⟩
      (nodesOfAll texts (start + byteLength (renderStart name attributes)) children)]

/-- The nodes of pieces that stand one after the other. -/
def nodesOfAll (texts : String → Nat → List Node) (start : Nat) : List Piece → List Node
  | [] => []
  | piece :: pieces =>
    piece.nodes texts start ++ nodesOfAll texts (start + byteLength piece.render) pieces

end

end Piece

/-! ## What a text reads as -/

namespace Builder

/-- Finished nodes go into the innermost open element, one after the other. -/
def attachAll (nodes : List Node) (builder : Builder) : Builder :=
  nodes.foldl (fun builder node => builder.attach node) builder

theorem attachAll_append (xs ys : List Node) (builder : Builder) :
    builder.attachAll (xs ++ ys) = (builder.attachAll xs).attachAll ys :=
  List.foldl_append

theorem attachAll_of_open (nodes : List Node) (roots : List Node) (element : OpenElement)
    (outer : List OpenElement) :
    attachAll nodes ⟨roots, element :: outer⟩ =
      ⟨roots, { element with children := element.children ++ nodes } :: outer⟩ := by
  induction nodes generalizing element with
  | nil => simp [attachAll]
  | cons node nodes ih =>
    have hfirst : attach node ⟨roots, element :: outer⟩ = ⟨roots, element.add node :: outer⟩ := rfl
    rw [attachAll, List.foldl_cons, hfirst, ← attachAll, ih]
    simp [OpenElement.add]

theorem attachAll_of_closed (nodes roots : List Node) :
    attachAll nodes ⟨roots, []⟩ = ⟨roots ++ nodes, []⟩ := by
  induction nodes generalizing roots with
  | nil => simp [attachAll]
  | cons node nodes ih =>
    have hfirst : attach node ⟨roots, []⟩ = ⟨roots ++ [node], []⟩ := rfl
    rw [attachAll, List.foldl_cons, hfirst, ← attachAll, ih]
    simp

theorem attachAll_empty (nodes : List Node) : empty.attachAll nodes = ⟨nodes, []⟩ :=
  attachAll_of_closed nodes []

end Builder

/-- The text is at its end or at markup. -/
def AtMarkup (cs : List Char) : Prop :=
  ∀ c ∈ cs.head?, c = '<'

/-- Wherever the text stands, if only what comes after it is as required, reading goes through it
and attaches the given nodes. -/
def ReadsAs (required : List Char → Prop) (xs : List Char) (nodes : Nat → List Node) : Prop :=
  ∀ before rest, required rest → ∃ events,
    readAll (byteLength before) (xs ++ rest) =
      (events ++ (readAll (byteLength before + byteLength xs) rest).1,
        (readAll (byteLength before + byteLength xs) rest).2) ∧
    ∀ builder : Builder, events.foldl (Builder.read (before ++ (xs ++ rest))) builder =
      builder.attachAll (nodes (byteLength before))

namespace ReadsAs

theorem nil (required : List Char → Prop) : ReadsAs required [] fun _ => [] :=
  fun before rest _ => ⟨[], by simp, fun builder => rfl⟩

theorem mono {required stronger : List Char → Prop} {xs : List Char} {nodes : Nat → List Node}
    (h : ReadsAs required xs nodes) (himp : ∀ rest, stronger rest → required rest) :
    ReadsAs stronger xs nodes :=
  fun before rest hrest => h before rest (himp rest hrest)

/-- A text that is one event. -/
theorem of_scan {required : List Char → Prop} {xs : List Char} {event : Event}
    {nodes : Nat → List Node}
    (hscan : ∀ rest, required rest → scan (xs ++ rest) = .found event rest)
    (hread : ∀ before rest builder,
      Builder.read (before ++ (xs ++ rest)) builder
        ⟨event, byteLength before, byteLength before + byteLength xs⟩ =
      builder.attachAll (nodes (byteLength before))) :
    ReadsAs required xs nodes := by
  intro before rest hrest
  refine ⟨[⟨event, byteLength before, byteLength before + byteLength xs⟩], ?_, ?_⟩
  · exact readAll_append _ (hscan rest hrest)
  · intro builder
    exact hread before rest builder

/-- Two texts one after the other. -/
theorem append {required first : List Char → Prop} {xs ys : List Char} {f g : Nat → List Node}
    (hxs : ReadsAs first xs f) (hys : ReadsAs required ys g)
    (himp : ∀ rest, required rest → first (ys ++ rest)) :
    ReadsAs required (xs ++ ys) fun start => f start ++ g (start + byteLength xs) := by
  intro before rest hrest
  obtain ⟨earlier, hearlier, hbuild⟩ := hxs before (ys ++ rest) (himp rest hrest)
  obtain ⟨later, hlater, hbuild'⟩ := hys (before ++ xs) rest hrest
  rw [byteLength_append] at hlater hbuild'
  refine ⟨earlier ++ later, ?_, ?_⟩
  · rw [List.append_assoc, hearlier, hlater, byteLength_append, List.append_assoc, Nat.add_assoc]
  · intro builder
    rw [List.foldl_append, List.append_assoc, hbuild, Builder.attachAll_append]
    rw [← List.append_assoc before xs, hbuild']

end ReadsAs

/-- Markup starts where the reader meets its `<`. -/
theorem markupStart_append (before rest : List Char) :
    markupStart (before ++ '<' :: rest) (byteLength before) = byteLength before := by
  rw [markupStart, dropBytes_append]
  simp

/-- A name is not empty. -/
theorem isEmpty_of_isName {name : String} (hname : isName name.toList = true) :
    name.toList.isEmpty = false := by
  obtain ⟨first, more, hsplit⟩ := exists_cons_of_isName hname
  rw [hsplit]
  rfl

/-- A tag that closes itself reads as an element. -/
theorem readsAs_renderEmpty {name : String} {attributes : List Attribute}
    (hname : isName name.toList = true) (hattributes : attributes.all Attribute.isWritten = true) :
    ReadsAs (fun _ => True) (renderEmpty name attributes) fun start =>
      [.element ⟨name, attributes, ⟨start, start + byteLength (renderEmpty name attributes)⟩,
        .selfClosing⟩ []] := by
  apply ReadsAs.of_scan
  · intro rest _
    simpa [renderEmpty] using scan_emptyTag_append hname hattributes rest
  · intro before rest builder
    have hstart : markupStart (before ++ (renderEmpty name attributes ++ rest))
        (byteLength before) = byteLength before := markupStart_append before _
    simp only [List.foldl_cons, List.foldl_nil, Builder.read, hstart, localName_of_isName hname,
      isEmpty_of_isName hname, Bool.false_eq_true, if_false, Builder.selfClosed,
      Attribute.parseAll_renderAll hattributes, String.ofList_toList, Builder.attachAll]

/-- An end tag closes the element that was opened last, if that has its name. -/
theorem closeElement_of_open (roots : List Node) (element : OpenElement) (outer : List OpenElement)
    (start stop : Nat) :
    Builder.closeElement element.name start stop ⟨roots, element :: outer⟩ =
      Builder.attach (element.toNode .endTag stop) ⟨roots, outer⟩ := by
  simp [Builder.closeElement, List.findIdx?_cons, Builder.finishMany, Builder.finish]

/-- A start tag opens an element. -/
theorem read_renderStart {name : String} {attributes : List Attribute}
    (hname : isName name.toList = true) (hattributes : attributes.all Attribute.isWritten = true)
    (before rest : List Char) (builder : Builder) (stop : Nat) :
    Builder.read (before ++ (renderStart name attributes ++ rest)) builder
        ⟨.startTag name.toList (Attribute.renderAll attributes), byteLength before, stop⟩ =
      ⟨builder.roots, ⟨name, attributes, byteLength before, []⟩ :: builder.pending⟩ := by
  have hstart : markupStart (before ++ (renderStart name attributes ++ rest)) (byteLength before) =
      byteLength before := markupStart_append before _
  simp only [Builder.read, hstart, localName_of_isName hname, isEmpty_of_isName hname,
    Bool.false_eq_true, if_false, Builder.openElement, String.ofList_toList,
    Attribute.parseAll_renderAll hattributes]

/-- Content between two tags of a name reads as an element. -/
theorem ReadsAs.element {name : String} {attributes : List Attribute} {inside : List Char}
    {nodes : Nat → List Node} (h : ReadsAs AtMarkup inside nodes)
    (hname : isName name.toList = true) (hattributes : attributes.all Attribute.isWritten = true) :
    ReadsAs (fun _ => True) (renderStart name attributes ++ (inside ++ renderEnd name)) fun start =>
      [.element ⟨name, attributes,
        ⟨start, start + byteLength (renderStart name attributes ++ (inside ++ renderEnd name))⟩,
        .endTag⟩ (nodes (start + byteLength (renderStart name attributes)))] := by
  intro before rest _
  have hscan : scan (renderStart name attributes ++ (inside ++ (renderEnd name ++ rest))) =
      .found (.startTag name.toList (Attribute.renderAll attributes))
        (inside ++ (renderEnd name ++ rest)) := by
    simpa [renderStart] using scan_startTag_append hname hattributes
      (inside ++ (renderEnd name ++ rest))
  have hscanEnd : scan (renderEnd name ++ rest) = .found (.endTag name.toList) rest := by
    simpa [renderEnd] using scan_endTag_append hname rest
  obtain ⟨events, hevents, hbuild⟩ := h (before ++ renderStart name attributes)
    (renderEnd name ++ rest) (by simp [AtMarkup, renderEnd])
  rw [byteLength_append] at hevents hbuild
  rw [readAll_append _ hscanEnd] at hevents
  refine ⟨⟨.startTag name.toList (Attribute.renderAll attributes), byteLength before,
      byteLength before + byteLength (renderStart name attributes)⟩ :: (events ++
    [⟨.endTag name.toList,
      byteLength before + byteLength (renderStart name attributes) + byteLength inside,
      byteLength before + byteLength (renderStart name attributes) + byteLength inside +
        byteLength (renderEnd name)⟩]), ?_, ?_⟩
  · rw [List.append_assoc, List.append_assoc, readAll_append _ hscan, hevents]
    simp [Nat.add_assoc]
  · intro builder
    -- The start tag opens the element, the inside goes into it, the end tag finishes it.
    have hopen := read_renderStart hname hattributes before (inside ++ renderEnd name ++ rest) builder
      (byteLength before + byteLength (renderStart name attributes))
    rw [← List.append_assoc (renderStart name attributes)] at hopen
    have hinside := hbuild
      ⟨builder.roots, ⟨name, attributes, byteLength before, []⟩ :: builder.pending⟩
    have htext : before ++ renderStart name attributes ++ (inside ++ (renderEnd name ++ rest)) =
        before ++ (renderStart name attributes ++ (inside ++ renderEnd name) ++ rest) := by
      simp only [List.append_assoc]
    rw [htext, Builder.attachAll_of_open, List.nil_append] at hinside
    rw [List.foldl_cons, hopen, List.foldl_append, hinside, List.foldl_cons, List.foldl_nil]
    simp only [Builder.read, localName_of_isName hname, String.ofList_toList]
    rw [closeElement_of_open _ ⟨name, attributes, _, _⟩]
    simp only [OpenElement.toNode, byteLength_append, Nat.add_assoc]
    rfl

/-- A text without marks reads as one node. -/
theorem readsAs_plainText {content : String} (hne : content.toList ≠ [])
    (hplain : ∀ c ∈ content.toList, isMark c = false) :
    ReadsAs AtMarkup content.toList fun start =>
      [.text ⟨start, start + byteLength content.toList⟩ content] := by
  apply ReadsAs.of_scan
  · intro rest hrest
    apply scan_text_append hne hplain
    intro c hc
    rw [hrest c hc]
    rfl
  · intro before rest builder
    simp only [List.foldl_cons, List.foldl_nil, Builder.read, Builder.attachText,
      List.isEmpty_eq_false_iff.2 hne, Bool.false_eq_true, if_false, String.ofList_toList,
      Builder.attachAll]

/-! ## Content reads as its pieces do -/

namespace Piece

/-- Content that does not begin with a text begins with markup. -/
theorem atMarkup_renderAll_append {pieces : List Piece} {rest : List Char}
    (h : pieces.head?.any isText = false) (hrest : AtMarkup rest) :
    AtMarkup (renderAll pieces ++ rest) := by
  cases pieces with
  | nil => simpa [renderAll] using hrest
  | cons piece pieces =>
    cases piece with
    | text content => simp [isText] at h
    | selfClosed name attributes => simp [AtMarkup, renderAll, render, renderEmpty]
    | element name attributes children => simp [AtMarkup, renderAll, render, renderStart]

section Texts

variable {isContent : List Char → Bool} {texts : String → Nat → List Node}

mutual

/-- A piece reads as its nodes, given how texts read. A text must be followed by markup. -/
theorem readsAs_render
    (htexts : ∀ content : String, isContent content.toList = true →
      ReadsAs AtMarkup content.toList (texts content))
    (piece : Piece) (h : piece.isWellFormed isContent = true) :
    ReadsAs (fun rest => piece.isText = true → AtMarkup rest) piece.render
      fun start => piece.nodes texts start := by
  cases piece with
  | text content =>
    simp only [render, nodes]
    exact (htexts content h).mono fun rest hrest => hrest rfl
  | selfClosed name attributes =>
    rw [isWellFormed, Bool.and_eq_true] at h
    simp only [render, nodes]
    exact (readsAs_renderEmpty h.1 h.2).mono fun rest _ => trivial
  | element name attributes children =>
    rw [isWellFormed, Bool.and_eq_true, Bool.and_eq_true] at h
    obtain ⟨⟨hname, hattributes⟩, hchildren⟩ := h
    simp only [render, nodes]
    exact ((readsAs_renderAll htexts children hchildren).element hname hattributes).mono
      fun rest _ => trivial

/-- Pieces read as their nodes, given how texts read. -/
theorem readsAs_renderAll
    (htexts : ∀ content : String, isContent content.toList = true →
      ReadsAs AtMarkup content.toList (texts content))
    (pieces : List Piece) (h : allWellFormed isContent pieces = true) :
    ReadsAs AtMarkup (renderAll pieces) fun start => nodesOfAll texts start pieces := by
  cases pieces with
  | nil =>
    simp only [renderAll, nodesOfAll]
    exact ReadsAs.nil _
  | cons piece pieces =>
    rw [allWellFormed, Bool.and_eq_true, Bool.and_eq_true] at h
    obtain ⟨⟨hpiece, hapart⟩, hpieces⟩ := h
    simp only [renderAll, nodesOfAll]
    refine (readsAs_render htexts piece hpiece).append (readsAs_renderAll htexts pieces hpieces) ?_
    -- A text is not followed by a text, so it is followed by markup.
    intro rest hrest htext
    rw [htext] at hapart
    exact atMarkup_renderAll_append (by simpa using hapart) hrest

end

end Texts

/-- A text with a character in it, and no `<` and no `&`. -/
def isPlain (content : List Char) : Bool :=
  !content.isEmpty && content.all fun c => !isMark c

/-- A text as one node. -/
def wholeText (content : String) (start : Nat) : List Node :=
  [.text ⟨start, start + byteLength content.toList⟩ content]

end Piece

namespace Forest

/-- Well-formed content that is written down and read again is the content it was, each piece with
the span of its rendering. -/
theorem read_renderAll (pieces : List Piece) (h : Piece.allWellFormed Piece.isPlain pieces = true)
    (hmark : (Piece.renderAll pieces).head? ≠ some '\uFEFF') :
    read (Piece.renderAll pieces) =
      { nodes := Piece.nodesOfAll Piece.wholeText 0 pieces, errorPosition := none,
        isAligned := true } := by
  have htexts : ∀ content : String, Piece.isPlain content.toList = true →
      ReadsAs AtMarkup content.toList (Piece.wholeText content) := by
    intro content hcontent
    rw [Piece.isPlain, Bool.and_eq_true, List.all_eq_true] at hcontent
    refine readsAs_plainText (by simpa using hcontent.1) ?_
    intro c hc
    simpa using hcontent.2 c hc
  obtain ⟨events, hevents, hbuild⟩ :=
    Piece.readsAs_renderAll htexts pieces h [] [] (by simp [AtMarkup])
  rw [List.append_nil, byteLength_nil, readAll_nil, List.append_nil,
    ← readings_eq_readAll hmark] at hevents
  -- With nothing open at the end, the nodes attached are the nodes of the forest.
  have hnodes := hbuild .empty
  rw [List.append_nil, List.nil_append, byteLength_nil, Builder.attachAll_empty] at hnodes
  have haligned := isAligned_read hmark
  rw [read, hevents] at haligned ⊢
  rw [Forest.mk.injEq]
  refine ⟨?_, rfl, haligned⟩
  rw [hnodes]
  rfl

/-- A summary with a nested paragraph, a reference with two attributes, and a paragraph inside a
paragraph. -/
theorem read_renderAll_nested :
    let pieces := [.text " ", .element "summary" [⟨"a", "x/='y'"⟩, ⟨"b", ""⟩]
      [.text "é > ", .element "para" []
        [.element "para" [] [.text "ü"], .selfClosed "see" [⟨"cref", "T"⟩]]]]
    Piece.allWellFormed Piece.isPlain pieces = true ∧
      (Piece.renderAll pieces).head? ≠ some '\uFEFF' ∧
      read (Piece.renderAll pieces) =
        { nodes := Piece.nodesOfAll Piece.wholeText 0 pieces, errorPosition := none,
          isAligned := true } :=
  have hwell : Piece.allWellFormed Piece.isPlain _ = true := by decide
  ⟨hwell, by decide, read_renderAll _ hwell (by decide)⟩

end Forest
end DocAudit.Markup

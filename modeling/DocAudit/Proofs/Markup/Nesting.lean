import DocAudit.Proofs.Markup.Steps

/-!
# Spans inside of spans

The spans of a forest are nested as its nodes are: a node stands inside of the node around it, and
behind the nodes in front of it. This holds of any text, however its tags match, although the end of
an element is set by its own tag, by its end tag, by the end tag of an element around it, or by the
end of reading.

The invariant is one of a forest under construction and the place that reading has come to: what is
finished stands in front of that place, and what is inside of an open element behind its `<`.

* `Node.AreNested`: nodes with nested spans between two offsets;
* `Builder.IsNestedUpTo`, `Builder.IsNestedUpTo.step`, `Builder.IsNestedUpTo.readOn`: the invariant,
  what one event does to it, and what reading to the end does;
* `Forest.SpansNested`, `Forest.read_spansNested`: the spans of the forest of a text.
-/

namespace DocAudit.Markup

open DocAudit.Text

/-! ## Nested nodes -/

/-- The nodes stand one behind the other between two offsets, and the children of an element between
its ends, behind the sign with which it starts. -/
inductive Node.AreNested : (start stop : Nat) → List Node → Prop
  /-- No nodes take up no room. -/
  | nil {start stop : Nat} (hle : start ≤ stop) : AreNested start stop []
  /-- A text in front of others. -/
  | text {start stop : Nat} {span : Span} (content : String) {nodes : List Node}
      (hstart : start ≤ span.start) (hspan : span.start ≤ span.stop)
      (hlater : AreNested span.stop stop nodes) :
      AreNested start stop (text span content :: nodes)
  /-- An element in front of others. -/
  | element {start stop : Nat} {tag : Tag} {children nodes : List Node}
      (hstart : start ≤ tag.span.start)
      (hinside : AreNested (tag.span.start + 1) tag.span.stop children)
      (hlater : AreNested tag.span.stop stop nodes) :
      AreNested start stop (element tag children :: nodes)

namespace Node.AreNested

variable {start stop : Nat} {nodes : List Node}

theorem start_le_stop (h : AreNested start stop nodes) : start ≤ stop := by
  induction h with
  | nil hle => exact hle
  | text content hstart hspan hlater ih => exact Nat.le_trans hstart (Nat.le_trans hspan ih)
  | element hstart hinside hlater ihInside ihLater => omega

/-- Nodes may be given more room. -/
theorem widen {first last : Nat} (h : AreNested start stop nodes) (hfirst : first ≤ start)
    (hlast : stop ≤ last) : AreNested first last nodes := by
  induction h generalizing first with
  | nil hle => exact .nil (Nat.le_trans hfirst (Nat.le_trans hle hlast))
  | text content hstart hspan hlater ih =>
    exact .text content (Nat.le_trans hfirst hstart) hspan (ih (Nat.le_refl _) hlast)
  | element hstart hinside hlater ihInside ihLater =>
    exact .element (Nat.le_trans hfirst hstart) hinside (ihLater (Nat.le_refl _) hlast)

/-- Nodes that stand behind others. -/
theorem append {middle : Nat} {later : List Node} (h : AreNested start middle nodes)
    (hlater : AreNested middle stop later) : AreNested start stop (nodes ++ later) := by
  induction h with
  | nil hle => exact hlater.widen hle (Nat.le_refl _)
  | text content hstart hspan _ ih => exact .text content hstart hspan (ih hlater)
  | element hstart hinside _ _ ih => exact .element hstart hinside (ih hlater)

/-- Every node stands between the two offsets. -/
theorem span_of_mem (h : AreNested start stop nodes) {node : Node} (hmem : node ∈ nodes) :
    start ≤ node.span.start ∧ node.span.start ≤ node.span.stop ∧ node.span.stop ≤ stop := by
  induction h with
  | nil => cases hmem
  | text content hstart hspan hlater ih =>
    rcases List.mem_cons.1 hmem with rfl | hmem
    · exact ⟨hstart, hspan, hlater.start_le_stop⟩
    · obtain ⟨hfirst, hnode, hlast⟩ := ih hmem
      exact ⟨Nat.le_trans hstart (Nat.le_trans hspan hfirst), hnode, hlast⟩
  | @element _ _ tag _ _ hstart hinside hlater _ ih =>
    have hwidth : tag.span.start ≤ tag.span.stop := Nat.le_of_succ_le hinside.start_le_stop
    rcases List.mem_cons.1 hmem with rfl | hmem
    · exact ⟨hstart, hwidth, hlater.start_le_stop⟩
    · obtain ⟨hfirst, hnode, hlast⟩ := ih hmem
      exact ⟨Nat.le_trans hstart (Nat.le_trans hwidth hfirst), hnode, hlast⟩

/-- The nodes do not overlap. -/
theorem pairwise (h : AreNested start stop nodes) :
    nodes.Pairwise fun node later => node.span.stop ≤ later.span.start := by
  induction h with
  | nil => exact List.Pairwise.nil
  | text content _ _ hlater ih =>
    exact List.pairwise_cons.2 ⟨fun node hmem => (hlater.span_of_mem hmem).1, ih⟩
  | element _ _ hlater _ ih =>
    exact List.pairwise_cons.2 ⟨fun node hmem => (hlater.span_of_mem hmem).1, ih⟩

/-- Every element at any depth stands between the two offsets, and what is inside of it between its
own ends. -/
theorem of_mem_elements (h : AreNested start stop nodes) {element : Element}
    (hmem : element ∈ elementsOfAll nodes) :
    start ≤ element.tag.span.start ∧ element.tag.span.stop ≤ stop ∧
      AreNested (element.tag.span.start + 1) element.tag.span.stop element.children := by
  induction h with
  | nil => simp [elementsOfAll] at hmem
  | text content hstart hspan hlater ih =>
    obtain ⟨hfirst, hlast, hchildren⟩ := ih hmem
    exact ⟨Nat.le_trans hstart (Nat.le_trans hspan hfirst), hlast, hchildren⟩
  | element hstart hinside hlater ihInside ihLater =>
    have hwidth := hinside.start_le_stop
    have hbehind := hlater.start_le_stop
    -- The element itself comes first, then those inside of it, then those behind it.
    rcases List.mem_append.1 hmem with hmem | hmem
    · rcases List.mem_cons.1 hmem with rfl | hmem
      · exact ⟨hstart, hbehind, hinside⟩
      · obtain ⟨hfirst, hlast, hchildren⟩ := ihInside hmem
        exact ⟨by omega, Nat.le_trans hlast hbehind, hchildren⟩
    · obtain ⟨hfirst, hlast, hchildren⟩ := ihLater hmem
      exact ⟨by omega, hlast, hchildren⟩

/-- In document order, every element starts behind the start of those in front of it. -/
theorem pairwise_start (h : AreNested start stop nodes) :
    (elementsOfAll nodes).Pairwise fun element later =>
      element.tag.span.start < later.tag.span.start := by
  induction h with
  | nil => simp [elementsOfAll]
  | text content _ _ _ ih => exact ih
  | @element _ _ tag children nodes _ hinside hlater ihInside ihLater =>
    have hwidth := hinside.start_le_stop
    show (({ tag, children } :: elementsOfAll children) ++ elementsOfAll nodes).Pairwise _
    refine List.pairwise_append.2 ⟨List.pairwise_cons.2 ⟨?_, ihInside⟩, ihLater, ?_⟩
    · intro inner hinner
      exact (hinside.of_mem_elements hinner).1
    · intro front hfront later hmem
      have hstart := (hlater.of_mem_elements hmem).1
      rcases List.mem_cons.1 hfront with rfl | hfront
      · exact Nat.lt_of_lt_of_le hwidth hstart
      · -- What is inside of the element stops before what comes behind it starts.
        obtain ⟨-, hstop, hnested⟩ := hinside.of_mem_elements hfront
        have := hnested.start_le_stop
        omega

end Node.AreNested

/-! ## A forest under construction -/

namespace Builder

/-- The content of every open element stands behind its `<`, and in front of the open element inside
of it or, for the innermost one, in front of an offset. -/
def areNestedUpTo (roots : List Node) : (stop : Nat) → (pending : List OpenElement) → Prop
  | stop, [] => Node.AreNested 0 stop roots
  | stop, element :: outer =>
    areNestedUpTo roots element.start outer ∧
      Node.AreNested (element.start + 1) stop element.children

/-- What is finished stands in front of an offset, and inside of the elements that hold it. -/
def IsNestedUpTo (stop : Nat) (builder : Builder) : Prop :=
  areNestedUpTo builder.roots stop builder.pending

theorem isNestedUpTo_nil {stop : Nat} {roots : List Node} :
    IsNestedUpTo stop ⟨roots, []⟩ ↔ Node.AreNested 0 stop roots :=
  Iff.rfl

theorem isNestedUpTo_cons {stop : Nat} {roots : List Node} {element : OpenElement}
    {outer : List OpenElement} :
    IsNestedUpTo stop ⟨roots, element :: outer⟩ ↔
      IsNestedUpTo element.start ⟨roots, outer⟩ ∧
        Node.AreNested (element.start + 1) stop element.children :=
  Iff.rfl

namespace IsNestedUpTo

variable {builder : Builder} {place stop : Nat}

theorem mono (h : builder.IsNestedUpTo place) (hle : place ≤ stop) : builder.IsNestedUpTo stop := by
  obtain ⟨roots, _ | ⟨element, outer⟩⟩ := builder
  · rw [isNestedUpTo_nil] at h ⊢
    exact h.widen (Nat.le_refl _) hle
  · rw [isNestedUpTo_cons] at h ⊢
    exact ⟨h.1, h.2.widen (Nat.le_refl _) hle⟩

/-- A finished node goes behind what is finished. -/
theorem attach {node : Node} (h : builder.IsNestedUpTo place)
    (hnode : Node.AreNested place stop [node]) : (builder.attach node).IsNestedUpTo stop := by
  obtain ⟨roots, _ | ⟨element, outer⟩⟩ := builder
  · rw [isNestedUpTo_nil] at h
    show IsNestedUpTo stop ⟨roots ++ [node], []⟩
    exact isNestedUpTo_nil.2 (h.append hnode)
  · rw [isNestedUpTo_cons] at h
    show IsNestedUpTo stop ⟨roots, element.add node :: outer⟩
    exact isNestedUpTo_cons.2 ⟨h.1, h.2.append hnode⟩

theorem attachText {content : List Char} (h : builder.IsNestedUpTo place)
    (hlength : place + byteLength content ≤ stop) :
    (builder.attachText place content).IsNestedUpTo stop := by
  unfold Builder.attachText
  split
  · exact h.mono (Nat.le_trans (Nat.le_add_right _ _) hlength)
  · exact h.attach (.text _ (Nat.le_refl _) (Nat.le_add_right _ _) (.nil hlength))

/-- Inside of an element that opens, nothing is finished yet. -/
theorem openElement (name attributes : List Char) (h : builder.IsNestedUpTo place)
    (hlt : place < stop) : (builder.openElement name attributes place).IsNestedUpTo stop := by
  obtain ⟨roots, pending⟩ := builder
  exact isNestedUpTo_cons.2 ⟨h, .nil hlt⟩

/-- An element that is finished holds what was finished inside of it. -/
theorem finish (closing : Closing) (h : builder.IsNestedUpTo place) (hle : place ≤ stop) :
    (builder.finish closing stop).IsNestedUpTo stop := by
  obtain ⟨roots, _ | ⟨element, outer⟩⟩ := builder
  · exact h.mono hle
  · rw [isNestedUpTo_cons] at h
    have hinside := h.2.widen (Nat.le_refl _) hle
    exact h.1.attach (.element (Nat.le_refl _) hinside (.nil (Nat.le_refl _)))

theorem finishMany (closing : Closing) (count : Nat) (h : builder.IsNestedUpTo place)
    (hle : place ≤ stop) : (builder.finishMany closing stop count).IsNestedUpTo stop := by
  induction count generalizing builder place with
  | zero => exact h.mono hle
  | succ count ih => exact ih (h.finish closing hle) (Nat.le_refl _)

/-- An end tag finishes the elements inside of its own where it starts, and its own where it
stops. -/
theorem closeElement (name : String) (h : builder.IsNestedUpTo place) (hle : place ≤ stop) :
    (builder.closeElement name place stop).IsNestedUpTo stop := by
  unfold Builder.closeElement
  split
  · exact h.mono hle
  · exact (h.finishMany .missing _ (Nat.le_refl _)).finish .endTag hle

/-- After an event, what is finished stands in front of the end of the event. -/
theorem step {xs rest : List Char} {event : Event} (hscan : scan (xs ++ rest) = .found event rest)
    (h : builder.IsNestedUpTo place) :
    (builder.step place xs event).IsNestedUpTo (place + byteLength xs) := by
  have hle : place ≤ place + byteLength xs := Nat.le_add_right _ _
  have htag := Event.isTagText_of_scan hscan
  -- An element takes up room, because its tag begins with a `<`.
  have hlt (more : List Char) (hxs : xs = '<' :: more) : place < place + byteLength xs := by
    have hpositive := '<'.utf8Size_pos
    rw [hxs, byteLength_cons]
    omega
  have htext : (builder.attachText place xs).IsNestedUpTo (place + byteLength xs) :=
    h.attachText (Nat.le_refl _)
  cases event with
  | text content =>
    exact h.attachText (Nat.add_le_add_left (byteLength_content_le hscan rfl) _)
  | characterData content =>
    exact h.attachText (Nat.add_le_add_left (byteLength_content_le hscan rfl) _)
  | reference => exact htext
  | startTag name attributes =>
    show IsNestedUpTo _ (if (localName name).isEmpty then _ else _)
    split
    · exact htext
    · exact h.openElement name attributes (hlt _ htag)
  | emptyTag name attributes =>
    show IsNestedUpTo _ (if (localName name).isEmpty then _ else _)
    split
    · exact htext
    · exact h.attach (.element (Nat.le_refl _) (.nil (hlt _ htag)) (.nil (Nat.le_refl _)))
  | endTag name => exact h.closeElement _ hle
  | aside => exact h.mono hle
  | complaint => exact h.mono hle

/-- When reading ends, what is finished stands in front of the place where it ended. -/
theorem readOn {before : List Char} (cs : List Char)
    (h : builder.IsNestedUpTo (byteLength before)) :
    (builder.readOn before cs).1.IsNestedUpTo (builder.readOn before cs).2.position ∧
      (builder.readOn before cs).2.position ≤ byteLength (before ++ cs) := by
  induction cs using scan_induction generalizing before builder with
  | finished cs hscan =>
    rw [readOn_finished hscan, byteLength_append]
    exact ⟨h, Nat.le_add_right _ _⟩
  | broken cs hscan =>
    rw [readOn_broken hscan, byteLength_append]
    exact ⟨h, Nat.le_add_right _ _⟩
  | found xs rest event hscan ih =>
    rw [readOn_found hscan, ← List.append_assoc]
    refine ih ?_
    rw [byteLength_append]
    exact h.step hscan

end IsNestedUpTo

/-- When all open elements are finished, all that is left are nodes. -/
theorem areNested_roots_finishMany {builder : Builder} {place stop : Nat} (closing : Closing)
    (h : builder.IsNestedUpTo place) (hle : place ≤ stop) :
    Node.AreNested 0 stop (builder.finishMany closing stop builder.pending.length).roots := by
  have hnested := h.finishMany closing builder.pending.length hle
  -- Nothing stays open.
  have hpending : (builder.finishMany closing stop builder.pending.length).pending = [] := by
    apply List.eq_nil_of_length_eq_zero
    rw [← length_numbers, numbers_finishMany, List.length_drop, length_numbers, Nat.sub_self]
  generalize builder.finishMany closing stop builder.pending.length = last at hnested hpending
  obtain ⟨roots, pending⟩ := last
  obtain rfl : pending = [] := hpending
  exact isNestedUpTo_nil.1 hnested

end Builder

/-! ## The forest of a text -/

namespace Forest

/-- Without a byte order mark, the nodes of a text are nested between its ends. -/
theorem areNested_nodes {cs : List Char} (hmark : cs.head? ≠ some '\uFEFF') :
    Node.AreNested 0 (byteLength cs) (read cs).nodes := by
  have hempty : Builder.empty.IsNestedUpTo (byteLength []) :=
    Builder.isNestedUpTo_nil.2 (.nil (Nat.le_refl _))
  obtain ⟨hnested, hposition⟩ := hempty.readOn cs
  rw [List.nil_append] at hposition
  rw [nodes_eq_ofBuilder hmark]
  generalize Builder.empty.readOn [] cs = last at hnested hposition
  obtain ⟨builder, ending⟩ := last
  -- What is still open ends at the end of the text, or where reading broke off.
  cases ending with
  | finished position => exact Builder.areNested_roots_finishMany .missing hnested hposition
  | broken position =>
    exact (Builder.areNested_roots_finishMany .unknown hnested (Nat.le_refl _)).widen
      (Nat.le_refl _) hposition

/-- The lists of nodes that stand side by side: those outside of all elements, and the children of
each element. -/
def siblings (forest : Forest) : List (List Node) :=
  forest.nodes :: forest.elements.map (·.children)

/-- The spans of a forest of a text are nested as its nodes are. -/
structure SpansNested (cs : List Char) (forest : Forest) : Prop where
  /-- Every node stops behind its start, and inside of the text. -/
  bounds : ∀ nodes ∈ forest.siblings, ∀ node ∈ nodes,
    node.span.start ≤ node.span.stop ∧ node.span.stop ≤ byteLength cs
  /-- A child stands inside of its parent. -/
  inside : ∀ element ∈ forest.elements, ∀ child ∈ element.children,
    element.tag.span.start ≤ child.span.start ∧ child.span.stop ≤ element.tag.span.stop
  /-- Nodes that stand side by side, texts and elements alike, follow one another. -/
  apart : ∀ nodes ∈ forest.siblings, nodes.Pairwise fun node later =>
    node.span.stop ≤ later.span.start
  /-- In document order, every element starts behind the start of the one in front of it. -/
  starts : forest.elements.Pairwise fun element later =>
    element.tag.span.start < later.tag.span.start
  /-- Every element starts at a `<`. -/
  standsAt : ∀ element ∈ forest.elements, StandsAt '<' element.tag.span.start cs

/-- The spans of every text without a byte order mark are nested. -/
theorem read_spansNested {cs : List Char} (hmark : cs.head? ≠ some '\uFEFF') :
    SpansNested cs (read cs) := by
  have hnested := areNested_nodes hmark
  -- Nodes that stand side by side are nested between some offsets of the text.
  have hsiblings : ∀ nodes ∈ (read cs).siblings, ∃ start stop, stop ≤ byteLength cs ∧
      Node.AreNested start stop nodes := by
    intro nodes hmem
    rcases List.mem_cons.1 hmem with rfl | hmem
    · exact ⟨0, byteLength cs, Nat.le_refl _, hnested⟩
    · obtain ⟨element, helement, rfl⟩ := List.mem_map.1 hmem
      obtain ⟨-, hstop, hchildren⟩ := hnested.of_mem_elements helement
      exact ⟨_, _, hstop, hchildren⟩
  refine ⟨?_, ?_, ?_, hnested.pairwise_start, fun element hmem => standsAt_start hmem hmark⟩
  · intro nodes hnodes node hnode
    obtain ⟨start, stop, hstop, hnested⟩ := hsiblings nodes hnodes
    obtain ⟨-, hwidth, hlast⟩ := hnested.span_of_mem hnode
    exact ⟨hwidth, Nat.le_trans hlast hstop⟩
  · intro element helement child hchild
    obtain ⟨-, -, hchildren⟩ := hnested.of_mem_elements helement
    obtain ⟨hfirst, -, hlast⟩ := hchildren.span_of_mem hchild
    exact ⟨Nat.le_of_succ_le hfirst, hlast⟩
  · intro nodes hnodes
    obtain ⟨start, stop, -, hnested⟩ := hsiblings nodes hnodes
    exact hnested.pairwise

/-- A paragraph that its parent's end tag finishes, an element that the end of reading finishes, and
markup that has no end. -/
theorem read_spansNested_unfinished :
    let cs := "<a>é<para>&lt;<![CDATA[<]]></a> <c>< b</d>text<e".toList
    cs.head? ≠ some '\uFEFF' ∧ SpansNested cs (read cs) ∧
      (read cs).elements.map (fun element => (element.tag.span, element.tag.closing)) =
        [(⟨0, 32⟩, .endTag), (⟨5, 28⟩, .missing), (⟨33, 47⟩, .unknown)] := by
  intro cs
  have hmark : cs.head? ≠ some '\uFEFF' := by decide
  exact ⟨hmark, read_spansNested hmark, by decide +kernel⟩

end Forest
end DocAudit.Markup

import DocAudit.Proofs.Comment.Content
import DocAudit.Proofs.Markup.Steps

/-!
# Where nodes come from

Every node of a forest, at any depth, comes from one event of the text. A text stands where its event
starts, and so does an element, whose end lies behind its own tag wherever that end comes from.

The invariant is one of a forest under construction and the place that reading has come to. Whatever
is true of all nodes that an event can make is true of the finished nodes, and it will be true of an
open element, wherever behind that place it is finished and whatever it then holds.

* `Node.ComesFrom`: the nodes that an event can make;
* `Builder.Makes`, `Builder.Makes.step`, `Builder.Makes.readOn`: the invariant, what one event does to
  it, and what reading to the end does;
* `Forest.exists_comesFrom`: every node of a text comes from one of its events.
-/

namespace DocAudit.Markup

open DocAudit.Text

/-! ## Nodes and events -/

namespace Node

/-- The node is one that an event of a text can make: the text that the event gives, its own text as
it is written, or the element that a tag begins. -/
inductive ComesFrom (cs : List Char) (reading : Reading) : Node → Prop
  /-- The content of the event. -/
  | content {content : List Char} (hcontent : reading.event.content? = some content) :
      ComesFrom cs reading
        (text ⟨reading.start, reading.start + byteLength content⟩ (String.ofList content))
  /-- The event as it is written. -/
  | written (hcontent : reading.event.content? = none) :
      ComesFrom cs reading
        (text ⟨reading.start, reading.stop⟩ (String.ofList (slice reading.start reading.stop cs)))
  /-- An element that ends at a boundary behind its tag. -/
  | element {name attributes : List Char} {tag : Tag} (children : List Node)
      (hevent : reading.event = .startTag name attributes ∨
        reading.event = .emptyTag name attributes)
      (hname : tag.name = String.ofList (localName name)) (hstart : tag.span.start = reading.start)
      (hstop : reading.stop ≤ tag.span.stop) (hboundary : isBoundary tag.span.stop cs = true) :
      ComesFrom cs reading (element tag children)

theorem not_standsIn_nil {node : Node} : ¬node.StandsIn [] := by
  rintro (hnode | ⟨helement, -⟩)
  · cases hnode
  · cases helement

theorem standsIn_append {node : Node} {nodes others : List Node} :
    node.StandsIn (nodes ++ others) ↔ node.StandsIn nodes ∨ node.StandsIn others := by
  constructor
  · rintro (hnode | ⟨helement, hinside⟩)
    · exact (List.mem_append.1 hnode).imp .here .here
    · exact (List.mem_append.1 helement).imp (.inside · hinside) (.inside · hinside)
  · rintro (h | h)
    · exact h.mono (List.subset_append_left _ _)
    · exact h.mono (List.subset_append_right _ _)

/-- In an element stand the element itself and what is inside of it. -/
theorem standsIn_singleton_element {node : Node} {tag : Tag} {children : List Node} :
    node.StandsIn [element tag children] ↔
      node = element tag children ∨ node.StandsIn children := by
  constructor
  · rintro (hnode | ⟨helement, hinside⟩)
    · exact Or.inl (List.mem_singleton.1 hnode)
    · obtain ⟨rfl, rfl⟩ := Node.element.inj (List.mem_singleton.1 helement)
      exact Or.inr hinside
  · rintro (rfl | hinside)
    · exact .here (List.mem_singleton_self _)
    · exact .inside (List.mem_singleton_self _) hinside

/-- In a text stands nothing but the text. -/
theorem standsIn_singleton_text {node : Node} {span : Span} {content : String} :
    node.StandsIn [text span content] ↔ node = text span content := by
  constructor
  · rintro (hnode | ⟨helement, -⟩)
    · exact List.mem_singleton.1 hnode
    · cases List.mem_singleton.1 helement
  · rintro rfl
    exact .here (List.mem_singleton_self _)

mutual

/-- The elements of a node stand in it. -/
theorem standsIn_of_mem_elements {node : Node} {found : Element} (h : found ∈ node.elements) :
    (element found.tag found.children).StandsIn [node] := by
  cases node with
  | text span content => cases h
  | element tag children =>
    rcases List.mem_cons.1 h with rfl | h
    · exact .here (List.mem_singleton_self _)
    · exact .inside (List.mem_singleton_self _) (standsIn_of_mem_elementsOfAll h)

/-- The elements of a list of nodes stand in it. -/
theorem standsIn_of_mem_elementsOfAll {nodes : List Node} {found : Element}
    (h : found ∈ elementsOfAll nodes) : (element found.tag found.children).StandsIn nodes := by
  cases nodes with
  | nil => cases h
  | cons node nodes =>
    rcases List.mem_append.1 h with h | h
    · exact (standsIn_of_mem_elements h).mono (by simp)
    · exact (standsIn_of_mem_elementsOfAll h).mono (List.subset_cons_self node nodes)

end

end Node

/-! ## A forest under construction -/

namespace Builder

/-- The finished nodes of a forest under construction are of a kind, and so is every open element once
it is finished at a boundary from the given place on, with any children. -/
structure Makes (P : Node → Prop) (cs : List Char) (place : Nat) (builder : Builder) : Prop where
  /-- The nodes outside of all open elements. -/
  outside : ∀ node : Node, node.StandsIn builder.roots → P node
  /-- The nodes inside of open elements. -/
  inside : ∀ element ∈ builder.pending, ∀ node : Node, node.StandsIn element.children → P node
  /-- The open elements themselves. -/
  pending : ∀ element ∈ builder.pending, ∀ children closing stop, place ≤ stop →
    isBoundary stop cs = true → P ({ element with children }.toNode closing stop)

namespace Makes

variable {P : Node → Prop} {cs : List Char} {place later stop : Nat} {builder : Builder}

/-- Nothing is made yet. -/
theorem empty : empty.Makes P cs place :=
  ⟨fun _ h => (Node.not_standsIn_nil h).elim, nofun, nofun⟩

theorem mono (h : builder.Makes P cs place) (hle : place ≤ later) : builder.Makes P cs later :=
  { h with
    pending := fun element hmem children closing stop hlater =>
      h.pending element hmem children closing stop (Nat.le_trans hle hlater) }

/-- A node may be attached if it and all that stands inside of it are of the kind. -/
theorem attach {node : Node} (h : builder.Makes P cs place)
    (hnode : ∀ inner : Node, inner.StandsIn [node] → P inner) :
    (builder.attach node).Makes P cs place := by
  obtain ⟨roots, _ | ⟨innermost, outer⟩⟩ := builder
  · refine ⟨fun inner hinner => ?_, nofun, nofun⟩
    exact (Node.standsIn_append.1 hinner).elim (h.outside inner) (hnode inner)
  · obtain ⟨hinnermost, houter⟩ := List.forall_mem_cons.1 h.inside
    obtain ⟨hopen, hpending⟩ := List.forall_mem_cons.1 h.pending
    -- The innermost open element has one more child, and may have any children once it is finished.
    refine ⟨h.outside, List.forall_mem_cons.2 ⟨fun inner hinner => ?_, houter⟩,
      List.forall_mem_cons.2 ⟨hopen, hpending⟩⟩
    exact (Node.standsIn_append.1 hinner).elim (hinnermost inner) (hnode inner)

theorem attachText {start : Nat} {content : List Char} (h : builder.Makes P cs place)
    (htext : P (.text ⟨start, start + byteLength content⟩ (String.ofList content))) :
    (builder.attachText start content).Makes P cs place := by
  unfold Builder.attachText
  split
  · exact h
  · refine h.attach fun inner hinner => ?_
    rwa [Node.standsIn_singleton_text.1 hinner]

/-- An element may be opened if it is of the kind wherever it is finished. -/
theorem openElement {name attributes : List Char} {start : Nat} (h : builder.Makes P cs place)
    (helement : ∀ children closing stop, place ≤ stop → isBoundary stop cs = true →
      P (.element ⟨String.ofList (localName name), Attribute.parseAll attributes, ⟨start, stop⟩,
        closing⟩ children)) :
    (builder.openElement name attributes start).Makes P cs place :=
  ⟨h.outside,
    List.forall_mem_cons.2 ⟨fun _ hinner => (Node.not_standsIn_nil hinner).elim, h.inside⟩,
    List.forall_mem_cons.2 ⟨helement, h.pending⟩⟩

/-- The innermost open element becomes a node of the kind. -/
theorem finish (closing : Closing) (h : builder.Makes P cs place) (hle : place ≤ stop)
    (hstop : isBoundary stop cs = true) : (builder.finish closing stop).Makes P cs place := by
  obtain ⟨roots, _ | ⟨innermost, outer⟩⟩ := builder
  · exact h
  · obtain ⟨hinnermost, houter⟩ := List.forall_mem_cons.1 h.inside
    obtain ⟨hopen, hpending⟩ := List.forall_mem_cons.1 h.pending
    have hrest : Makes P cs place ⟨roots, outer⟩ := ⟨h.outside, houter, hpending⟩
    refine hrest.attach fun inner hinner => ?_
    rcases Node.standsIn_singleton_element.1 hinner with rfl | hinner
    · exact hopen innermost.children closing stop hle hstop
    · exact hinnermost inner hinner

theorem finishMany (closing : Closing) (count : Nat) (h : builder.Makes P cs place)
    (hle : place ≤ stop) (hstop : isBoundary stop cs = true) :
    (builder.finishMany closing stop count).Makes P cs place := by
  induction count generalizing builder with
  | zero => exact h
  | succ count ih => exact ih (h.finish closing hle hstop)

/-- An end tag finishes elements where it starts and where it stops. -/
theorem closeElement (name : String) (h : builder.Makes P cs place) (hle : place ≤ stop)
    (hplace : isBoundary place cs = true) (hstop : isBoundary stop cs = true) :
    (builder.closeElement name place stop).Makes P cs place := by
  unfold Builder.closeElement
  split
  · exact h
  · exact (h.finishMany .missing _ (Nat.le_refl _) hplace).finish .endTag hle hstop

/-- An event makes nodes of the kind if all that come from it are of the kind. -/
theorem step {before xs rest : List Char} {event : Event} (hcs : cs = before ++ (xs ++ rest))
    (h : builder.Makes P cs (byteLength before))
    (hP : ∀ node : Node, node.ComesFrom cs
      ⟨event, byteLength before, byteLength before + byteLength xs⟩ → P node) :
    (builder.step (byteLength before) xs event).Makes P cs (byteLength before + byteLength xs) := by
  have hle : byteLength before ≤ byteLength before + byteLength xs := Nat.le_add_right _ _
  have hstart : isBoundary (byteLength before) cs = true := by
    rw [hcs]
    exact isBoundary_append before _
  have hstop : isBoundary (byteLength before + byteLength xs) cs = true := by
    rw [hcs, isBoundary_add_append]
    exact isBoundary_append xs rest
  have hslice : slice (byteLength before) (byteLength before + byteLength xs) cs = xs := by
    rw [hcs, slice_middle]
  have hnext := h.mono hle
  -- The text of an event that gives no other text.
  have hwritten (hcontent : event.content? = none) :
      (builder.attachText (byteLength before) xs).Makes P cs
        (byteLength before + byteLength xs) := by
    refine hnext.attachText (hP _ ?_)
    simpa only [hslice] using @Node.ComesFrom.written cs
      ⟨event, byteLength before, byteLength before + byteLength xs⟩ hcontent
  cases event with
  | text content => exact hnext.attachText (hP _ (.content rfl))
  | characterData content => exact hnext.attachText (hP _ (.content rfl))
  | reference => exact hwritten rfl
  | startTag name attributes =>
    show Makes P cs _ (if (localName name).isEmpty then _ else _)
    split
    · exact hwritten rfl
    · refine hnext.openElement fun children closing stop hbehind hboundary => hP _ ?_
      exact .element children (Or.inl rfl) rfl rfl hbehind hboundary
  | emptyTag name attributes =>
    show Makes P cs _ (if (localName name).isEmpty then _ else _)
    split
    · exact hwritten rfl
    · refine hnext.attach fun inner hinner => ?_
      rcases Node.standsIn_singleton_element.1 hinner with rfl | hinner
      · exact hP _ (.element [] (Or.inr rfl) rfl rfl (Nat.le_refl _) hstop)
      · exact (Node.not_standsIn_nil hinner).elim
  | endTag name => exact (h.closeElement _ hle hstart hstop).mono hle
  | aside => exact hnext
  | complaint => exact hnext

/-- Reading makes nodes of the kind if all that come from its events are of the kind. -/
theorem readOn {before rest : List Char} (hcs : cs = before ++ rest)
    (h : builder.Makes P cs (byteLength before))
    (hP : ∀ reading ∈ (readAll (byteLength before) rest).1, ∀ node : Node,
      node.ComesFrom cs reading → P node) :
    (builder.readOn before rest).1.Makes P cs (builder.readOn before rest).2.position ∧
      (builder.readOn before rest).2.position ≤ byteLength cs ∧
      isBoundary (builder.readOn before rest).2.position cs = true := by
  have hplace (front back : List Char) (hsplit : cs = front ++ back) :
      byteLength front ≤ byteLength cs ∧ isBoundary (byteLength front) cs = true := by
    rw [hsplit, byteLength_append]
    exact ⟨Nat.le_add_right _ _, isBoundary_append front back⟩
  induction rest using scan_induction generalizing before builder with
  | finished rest hscan =>
    rw [readOn_finished hscan]
    exact ⟨h, hplace before rest hcs⟩
  | broken rest hscan =>
    rw [readOn_broken hscan]
    exact ⟨h, hplace before rest hcs⟩
  | found xs rest event hscan ih =>
    rw [readAll_append _ hscan] at hP
    obtain ⟨hfirst, hlater⟩ := List.forall_mem_cons.1 hP
    have hsplit : cs = before ++ xs ++ rest := by rw [hcs, List.append_assoc]
    have hstep := h.step hcs hfirst
    rw [← byteLength_append] at hstep hlater
    rw [readOn_found hscan]
    exact ih hsplit hstep hlater

end Makes
end Builder

/-! ## The forest of a text -/

namespace Forest

variable {cs : List Char} {node : Node}

/-- Without a byte order mark, each event of a text stands at its place in it. -/
theorem exists_scan_of_mem_readings {reading : Reading} (hmark : cs.head? ≠ some '\uFEFF')
    (h : reading ∈ (readings cs).1) :
    ∃ before xs rest, cs = before ++ (xs ++ rest) ∧ reading.start = byteLength before ∧
      reading.stop = byteLength before + byteLength xs ∧
      scan (xs ++ rest) = .found reading.event rest := by
  rw [readings_eq_readAll hmark] at h
  obtain ⟨k, hk⟩ := List.mem_iff_getElem?.1 h
  obtain ⟨before, xs, rest, hcs, hstart, hstop, hscan, -⟩ := exists_scan_of_getElem?_readAll hk
  rw [Nat.zero_add] at hstart
  exact ⟨before, xs, rest, hcs, hstart, by rw [hstop, hstart], hscan⟩

/-- Without a byte order mark, every node of a text, at any depth, comes from one of its events. -/
theorem exists_comesFrom (hmark : cs.head? ≠ some '\uFEFF') (h : node.StandsIn (read cs).nodes) :
    ∃ reading ∈ (readings cs).1, node.ComesFrom cs reading := by
  rw [nodes_eq_ofBuilder hmark] at h
  rw [readings_eq_readAll hmark]
  have hempty : Builder.empty.Makes
      (fun node => ∃ reading ∈ (readAll 0 cs).1, node.ComesFrom cs reading) cs (byteLength []) :=
    .empty
  obtain ⟨hmakes, hle, hboundary⟩ := hempty.readOn (List.nil_append cs).symm
    fun reading hreading node hnode => ⟨reading, hreading, hnode⟩
  have hend : isBoundary (byteLength cs) cs = true := by
    simpa using isBoundary_append cs []
  generalize Builder.empty.readOn [] cs = last at h hmakes hle hboundary
  obtain ⟨builder, ending⟩ := last
  -- What is still open is finished at the end of the text, or where reading broke off.
  cases ending with
  | finished position => exact (hmakes.finishMany .missing _ hle hend).outside node h
  | broken position =>
    exact (hmakes.finishMany .unknown _ (Nat.le_refl _) hboundary).outside node h

end Forest
end DocAudit.Markup

import DocAudit.Proofs.Comment.Characters
import DocAudit.Proofs.Markup.Origins

/-!
# Elements and their start tags

The text of an element of a doc comment begins with the tag that the element was read from: with the
very `<` at which the tag was read, and behind it the name of the tag. The position of the element is
that of this `<` in the source. So it is after any text in front of the tag, be it full of other angle
brackets, and however the element ends.

* `Text.exists_slice_append`: a slice that reaches behind a part of the text begins with that part;
* `DocComment.BeginsWith`: an element and the tag it was read from;
* `DocComment.exists_beginsWith`: every element begins with the tag it was read from.
-/

namespace DocAudit

open Text Markup

/-- A slice that goes on behind a part of the text begins with that part. -/
theorem Text.exists_slice_append (before part rest : List Char) {stop : Nat}
    (hle : byteLength before + byteLength part ≤ stop)
    (hstop : isBoundary stop (before ++ (part ++ rest)) = true) :
    ∃ more, slice (byteLength before) stop (before ++ (part ++ rest)) = part ++ more := by
  obtain ⟨further, rfl⟩ := Nat.exists_eq_add_of_le hle
  rw [Nat.add_assoc, isBoundary_add_append, isBoundary_add_append] at hstop
  obtain ⟨more, after, rfl, rfl⟩ := exists_append_of_isBoundary hstop
  refine ⟨more, ?_⟩
  rw [Nat.add_assoc, ← byteLength_append, ← List.append_assoc part, slice_middle]

namespace DocComment

variable {doc : DocComment} {element : Element}

/-- The element begins with the tag that an event of the markup is. -/
structure BeginsWith (doc : DocComment) (element : Element) (reading : Reading)
    (name attributes : List Char) : Prop where
  /-- The event is a start tag or a tag that closes itself, of the given name. -/
  event_eq : reading.event = .startTag name attributes ∨ reading.event = .emptyTag name attributes
  /-- The name of the element is the local part of the name of the tag. -/
  name_eq : element.tag.name = String.ofList (localName name)
  /-- The element starts where the event does, -/
  start_eq : element.tag.span.start = reading.start
  /-- and what is read from there on is this event. -/
  scan_eq : ∃ rest, scan (dropBytes element.tag.span.start doc.markup) = .found reading.event rest
  /-- The element starts at a `<` of the markup, -/
  standsAt : StandsAt '<' element.tag.span.start doc.markup
  /-- and its text goes on with the name of the tag. -/
  text_eq : ∃ rest, doc.textOf element = '<' :: (name ++ rest)
  /-- The position of the element is the place to which the offset of this `<` leads, -/
  position_eq : doc.positionOf element = doc.sourceOffset reading.start
  /-- and the `<` stands there in every source in which the lines of the comment lie. -/
  inSource : ∀ source, Comment.LiesIn source doc.start doc.stop doc.lines →
    StandsAt '<' (doc.positionOf element) source

/-- Every element of markup without a byte order mark begins with the tag it was read from. -/
theorem exists_beginsWith (hmark : doc.markup.head? ≠ some '\uFEFF') (h : element ∈ doc.elements) :
    ∃ reading ∈ (Forest.readings doc.markup).1, ∃ name attributes,
      doc.BeginsWith element reading name attributes := by
  have hread : element ∈ (Forest.read doc.markup).elements := by
    rw [elements, doc.forest_eq] at h
    exact h
  obtain ⟨reading, hreading, hcomes⟩ :=
    Forest.exists_comesFrom hmark (Node.standsIn_of_mem_elementsOfAll hread)
  obtain ⟨before, xs, rest, hmarkup, hplace, hend, hscan⟩ :=
    Forest.exists_scan_of_mem_readings hmark hreading
  cases hcomes with
  | @element name attributes _ _ hevent hname hstart hstop hboundary =>
    have hbefore : element.tag.span.start = byteLength before := by rw [hstart, hplace]
    -- The tag is written as what it says.
    have htag : ∃ more, xs = '<' :: (name ++ more) := by
      have hwritten := Event.isTagText_of_scan hscan
      rcases hevent with hevent | hevent <;> rw [hevent] at hwritten
      · exact ⟨attributes ++ ['>'], hwritten⟩
      · exact ⟨attributes ++ ['/', '>'], hwritten⟩
    obtain ⟨more, rfl⟩ := htag
    have hstands : StandsAt '<' element.tag.span.start doc.markup :=
      ⟨before, name ++ more ++ rest, hmarkup, hbefore.symm⟩
    refine ⟨reading, hreading, name, attributes, hevent, hname, hstart, ⟨rest, ?_⟩, hstands, ?_, ?_,
      fun source hlies => ?_⟩
    · rw [hbefore, hmarkup, dropBytes_append, hscan]
    · rw [hend] at hstop
      rw [hmarkup] at hboundary
      obtain ⟨later, hlater⟩ := exists_slice_append before _ rest hstop hboundary
      refine ⟨more ++ later, ?_⟩
      rw [textOf, hbefore, hmarkup, hlater, List.cons_append, List.append_assoc]
    · rw [positionOf, hstart]
    · exact (hlies.standsAt_sourceOffset doc.start (by decide) hstands).1

/-- Behind a tag without a name and a tag that closes itself, a tag whose name begins with another
`<`. -/
theorem exists_beginsWith_angles :
    let doc := ofLines 0 29 [⟨3, "a < b><x:c d='>'/><<i e>".toList⟩]
    doc.markup.head? ≠ some '\uFEFF' ∧
      ∃ element ∈ doc.elements, element.tag.name = "<i" ∧ element.tag.span.start = 18 ∧
        ∃ reading ∈ (Forest.readings doc.markup).1, ∃ name attributes,
          doc.BeginsWith element reading name attributes := by
  intro doc
  have hmark : doc.markup.head? ≠ some '\uFEFF' := by decide
  obtain ⟨element, hmem, hname, hstart⟩ : ∃ element ∈ doc.elements,
      element.tag.name = "<i" ∧ element.tag.span.start = 18 := by
    decide +kernel
  exact ⟨hmark, element, hmem, hname, hstart, exists_beginsWith hmark hmem⟩

end DocComment
end DocAudit

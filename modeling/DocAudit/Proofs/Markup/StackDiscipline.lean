import DocAudit.Proofs.Markup.Ledger
import Mathlib.Data.List.Induction

/-!
# The stack discipline of the reader

The elements of a forest against the events it was read from. No element is lost, duplicated or
reordered, and its closing mark says what became of it: an end tag closed it, its own tag did, it
was left behind when an element around it was closed or the text ended, or reading broke off.

* `Builder.closing_eq_some_iff`: the closing marks a forest under construction has so far;
* `StackDiscipline`: what the forest of a text has to do with the events of the text;
* `Forest.read_stackDiscipline`: every text is read so.
-/

namespace DocAudit.Markup

/-- The event of number `k` gives a closing mark to an element. -/
def MarkedBy (cs : List Char) (events : List Reading) (k number : Nat) (closing : Closing) : Prop :=
  ∃ reading, events[k]? = some reading ∧
    (Ledger.after cs (events.take k)).mark? reading.event number = some closing

/-- The event of number `k` is the end tag of an element. -/
def ClosedBy (cs : List Char) (events : List Reading) (k number : Nat) : Prop :=
  ∃ reading, events[k]? = some reading ∧
    (Ledger.after cs (events.take k)).closedBy? reading.event = some number

theorem markedBy_endTag_iff {cs : List Char} {events : List Reading} {k number : Nat} :
    MarkedBy cs events k number .endTag ↔ ClosedBy cs events k number := by
  simp [MarkedBy, ClosedBy, Ledger.mark?_eq_endTag_iff]

/-- With one more event, the marks are those of the events before it and its own. -/
theorem exists_markedBy_concat {cs : List Char} {events : List Reading} {reading : Reading}
    {number : Nat} {closing : Closing} :
    (∃ k, MarkedBy cs (events ++ [reading]) k number closing) ↔
      (∃ k, MarkedBy cs events k number closing) ∨
        (Ledger.after cs events).mark? reading.event number = some closing := by
  constructor
  · rintro ⟨k, found, hfound, hmark⟩
    rcases Nat.lt_or_ge k events.length with before | after
    · rw [List.getElem?_append_left before] at hfound
      rw [List.take_append_of_le_length (Nat.le_of_lt before)] at hmark
      exact Or.inl ⟨k, found, hfound, hmark⟩
    · have hlast : k < (events ++ [reading]).length := (List.getElem?_eq_some_iff.1 hfound).1
      obtain rfl : k = events.length := by
        rw [List.length_append, List.length_singleton] at hlast
        omega
      obtain rfl : reading = found := by simpa using hfound
      exact Or.inr (by simpa using hmark)
  · rintro (⟨k, found, hfound, hmark⟩ | hmark)
    · have before : k < events.length := (List.getElem?_eq_some_iff.1 hfound).1
      refine ⟨k, found, ?_, ?_⟩
      · rw [List.getElem?_append_left before, hfound]
      · rw [List.take_append_of_le_length (Nat.le_of_lt before), hmark]
    · exact ⟨events.length, reading, by simp, by simpa using hmark⟩

namespace Builder

theorem length_rows_after (cs : List Char) (events : List Reading) :
    (after cs events).rows.length = (events.filterMap (Reading.opening? cs)).length := by
  rw [← Ledger.openings_after, ← ledger_after, ledger, List.length_map]

theorem pending_ledger_after (cs : List Char) (events : List Reading) :
    (Ledger.after cs events).pending = (after cs events).numbers := by
  rw [← ledger_after]
  rfl

/-- Only elements that have begun get a closing mark. -/
theorem lt_length_of_markedBy {cs : List Char} {events : List Reading} {k number : Nat}
    {closing : Closing} (h : MarkedBy cs events k number closing) :
    number < (after cs events).rows.length := by
  obtain ⟨reading, -, hmark⟩ := h
  have hmem := Ledger.mem_pending_of_mark? hmark
  rw [pending_ledger_after] at hmem
  refine Nat.lt_of_lt_of_le (lt_length_of_mem_numbers hmem) ?_
  rw [length_rows_after, length_rows_after]
  exact ((List.take_sublist k events).filterMap _).length_le

/-- The closing mark an element has after some events is the one it was given: by its own tag, or by
one of the events. -/
theorem closing_eq_some_iff {cs : List Char} {events : List Reading} {number : Nat} {row : Row}
    (h : (after cs events).rows[number]? = some row) (closing : Closing) :
    row.closing = some closing ↔
      (closing = .selfClosing ∧ row.opening.closesItself = true) ∨
        ∃ k, MarkedBy cs events k number closing := by
  induction events using List.reverseRecOn generalizing row with
  | nil => simp at h
  | append_singleton events reading ih =>
    rw [exists_markedBy_concat, ← ledger_after]
    rw [after_concat] at h
    -- Either the element was there before the last event, or the event begins it.
    rcases Nat.lt_or_ge number (after cs events).rows.length with before | new
    · rw [getElem?_rows_read cs _ reading before, List.getElem?_eq_getElem before] at h
      obtain rfl := Option.some.inj h
      have hbefore := List.getElem?_eq_getElem before
      cases hmark : (after cs events).ledger.mark? reading.event number with
      | none => simpa using ih hbefore
      | some given =>
        -- Only an open element is given a mark, so it had none before.
        have hopen := (closing_eq_none_iff hbefore).2 (Ledger.mem_pending_of_mark? hmark)
        have hnone := ih hbefore
        rw [hopen] at hnone
        simp only [reduceCtorEq, false_iff, not_or, not_exists] at hnone
        simp [Row.close, hnone.1, hnone.2]
    · have hlength : ((after cs events).read cs reading).rows.length ≤
          (after cs events).rows.length + 1 := by
        have hread := Ledger.length_openings_read cs (after cs events).ledger reading
        rw [← ledger_read] at hread
        simpa [ledger] using hread
      obtain rfl : number = (after cs events).rows.length := by
        have := (List.getElem?_eq_some_iff.1 h).1
        omega
      have hmarked : ¬∃ k, MarkedBy cs events k (after cs events).rows.length closing := by
        rintro ⟨k, hmarked⟩
        exact Nat.lt_irrefl _ (lt_length_of_markedBy hmarked)
      have hmark : (after cs events).ledger.mark? reading.event (after cs events).rows.length ≠
          some closing :=
        fun hmark => Nat.lt_irrefl _ (lt_length_of_mem_numbers (Ledger.mem_pending_of_mark? hmark))
      rw [closing_of_opening? cs _ reading h]
      cases row.opening.closesItself <;> simp [hmarked, hmark, eq_comm]

end Builder

/-! ## The finished forest -/

/-- The closing mark of the elements still open when reading ends. -/
def Ending.closing : Ending → Closing
  | finished _ => .missing
  | broken _ => .unknown

namespace Forest

/-- When reading ends, the elements still open get the closing mark of the ending, and all others
stay as they are. -/
theorem getElem?_listedAll_ofBuilder (cs : List Char) (builder : Builder) (ending : Ending)
    (number : Nat) :
    (Node.listedAll 0 (ofBuilder cs builder ending))[number]?.map Row.ofListed =
      if number ∈ builder.numbers then builder.rows[number]?.map (Row.close ending.closing)
      else builder.rows[number]? := by
  obtain ⟨stop, hstop⟩ : ∃ stop, ofBuilder cs builder ending =
      (builder.finishMany ending.closing stop builder.pending.length).roots := by
    cases ending <;> exact ⟨_, rfl⟩
  have hclosing : (ending.closing == .selfClosing) = false := by cases ending <;> rfl
  have hrows := Builder.getElem?_rows_finishMany stop builder.pending.length builder hclosing number
  have hnumbers := Builder.length_numbers
    (builder.finishMany ending.closing stop builder.pending.length)
  -- Nothing is left open.
  rw [Builder.numbers_finishMany, List.length_drop, Builder.length_numbers, Nat.sub_self]
    at hnumbers
  rw [← Builder.length_numbers, List.take_length] at hrows
  rw [hstop, ← List.getElem?_map, ← hrows, Builder.length_numbers, Builder.rows,
    List.eq_nil_of_length_eq_zero hnumbers.symm, Builder.rowsOfPending, List.append_nil]

/-- An element of a forest comes from the element of its number in the forest under construction. -/
theorem exists_row_of_getElem?_listedAll {cs : List Char} {builder : Builder} {ending : Ending}
    {number : Nat} {entry : Nat × Element}
    (h : (Node.listedAll 0 (ofBuilder cs builder ending))[number]? = some entry) :
    ∃ row, builder.rows[number]? = some row ∧ entry.1 = row.depth ∧
      entry.2.tag.opening = row.opening ∧
      entry.2.tag.closing = row.closing.getD ending.closing := by
  have hrows := getElem?_listedAll_ofBuilder cs builder ending number
  rw [h, Option.map_some] at hrows
  by_cases hopen : number ∈ builder.numbers
  · rw [if_pos hopen] at hrows
    obtain ⟨row, hrow, hclose⟩ := Option.map_eq_some_iff.1 hrows.symm
    refine ⟨row, hrow, congrArg Row.depth hclose.symm, congrArg Row.opening hclose.symm, ?_⟩
    rw [(Builder.closing_eq_none_iff hrow).2 hopen]
    exact Option.some.inj (congrArg Row.closing hclose.symm)
  · rw [if_neg hopen] at hrows
    refine ⟨Row.ofListed entry, hrows.symm, rfl, rfl, rfl⟩

end Forest

/-! ## The discipline -/

/-- What the end tag of a decreasing list of open elements finds is the innermost. -/
private theorem le_of_find?_eq_some {numbers : List Nat} (h : numbers.Pairwise (· > ·))
    {p : Nat → Bool} {found number : Nat} (hfound : numbers.find? p = some found)
    (hmem : number ∈ numbers) (hp : p number = true) : number ≤ found := by
  obtain ⟨-, before, after, rfl, hbefore⟩ := List.find?_eq_some_iff_append.1 hfound
  rcases List.mem_append.1 hmem with hmem | hmem
  · simpa [hp] using hbefore number hmem
  · rcases List.mem_cons.1 hmem with rfl | hmem
    · exact Nat.le_refl _
    · have hrest := (List.pairwise_append.1 h).2.1
      exact Nat.le_of_lt ((List.pairwise_cons.1 hrest).1 number hmem)

section Innermost

variable {cs : List Char} {events : List Reading}

theorem pairwise_pending_after (cs : List Char) (events : List Reading) :
    (Ledger.after cs events).pending.Pairwise (· > ·) := by
  rw [Builder.pending_ledger_after]
  exact Builder.pairwise_numbers _

theorem lt_length_of_mem_pending {number : Nat} (h : number ∈ (Ledger.after cs events).pending) :
    number < (Ledger.after cs events).openings.length := by
  rw [Builder.pending_ledger_after] at h
  rw [← Builder.ledger_after, Builder.ledger, List.length_map]
  exact Builder.lt_length_of_mem_numbers h

/-- An open element has the name that its start tag gave it. -/
theorem isNamed_iff_of_mem_pending {k number : Nat} {name : String}
    (h : number ∈ (Ledger.after cs (events.take k)).pending) :
    (Ledger.after cs (events.take k)).isNamed name number = true ↔
      (events.filterMap (Reading.opening? cs))[number]?.map Opening.name = some name := by
  rw [Ledger.isNamed, Ledger.getElem?_openings_take (lt_length_of_mem_pending h), beq_iff_eq]

/-- An end tag closes an open element of its name, and no element of that name is open inside it. -/
theorem ClosedBy.innermost {k number : Nat} (h : ClosedBy cs events k number) :
    number ∈ (Ledger.after cs (events.take k)).pending ∧
      ∃ reading, events[k]? = some reading ∧ ∃ name, reading.event.closingName? = some name ∧
        (events.filterMap (Reading.opening? cs))[number]?.map Opening.name = some name ∧
        ∀ inner ∈ (Ledger.after cs (events.take k)).pending, number < inner →
          (events.filterMap (Reading.opening? cs))[inner]?.map Opening.name ≠ some name := by
  obtain ⟨reading, hreading, hclosed⟩ := h
  obtain ⟨name, hname, hfind⟩ := Option.bind_eq_some_iff.1 hclosed
  have hmem := List.mem_of_find?_eq_some hfind
  refine ⟨hmem, reading, hreading, name, hname,
    (isNamed_iff_of_mem_pending hmem).1 (List.find?_some hfind), ?_⟩
  intro inner hinner hlt hsame
  have hle := le_of_find?_eq_some (pairwise_pending_after cs _) hfind hinner
    ((isNamed_iff_of_mem_pending hinner).2 hsame)
  exact Nat.not_lt.2 hle hlt

/-- While an element is open, an end tag of its name closes it or an element inside it. -/
theorem exists_closedBy_of_mem_pending {k number : Nat} {reading : Reading} {name : String}
    (hreading : events[k]? = some reading) (hname : reading.event.closingName? = some name)
    (hmem : number ∈ (Ledger.after cs (events.take k)).pending)
    (hnumber : (events.filterMap (Reading.opening? cs))[number]?.map Opening.name = some name) :
    ∃ inner, number ≤ inner ∧ ClosedBy cs events k inner := by
  have hnamed := (isNamed_iff_of_mem_pending hmem).2 hnumber
  obtain ⟨inner, hfind⟩ := Option.isSome_iff_exists.1
    (List.find?_isSome.2 ⟨number, hmem, hnamed⟩)
  refine ⟨inner, le_of_find?_eq_some (pairwise_pending_after cs _) hfind hmem hnamed, reading,
    hreading, ?_⟩
  rw [Ledger.closedBy?, hname, Option.bind_some, hfind]

/-- An end tag closes the open element of its name that has no open element of that name inside. -/
theorem closedBy_iff {k number : Nat} : ClosedBy cs events k number ↔
    number ∈ (Ledger.after cs (events.take k)).pending ∧
      ∃ reading, events[k]? = some reading ∧ ∃ name, reading.event.closingName? = some name ∧
        (events.filterMap (Reading.opening? cs))[number]?.map Opening.name = some name ∧
        ∀ inner ∈ (Ledger.after cs (events.take k)).pending, number < inner →
          (events.filterMap (Reading.opening? cs))[inner]?.map Opening.name ≠ some name := by
  refine ⟨ClosedBy.innermost, ?_⟩
  rintro ⟨hmem, reading, hreading, name, hname, hnumber, hinside⟩
  obtain ⟨inner, hle, hclosed⟩ := exists_closedBy_of_mem_pending hreading hname hmem hnumber
  obtain ⟨hinner, other, hother, found, hfound, hnamed, -⟩ := hclosed.innermost
  obtain rfl := Option.some.inj (hreading.symm.trans hother)
  obtain rfl := Option.some.inj (hname.symm.trans hfound)
  -- An end tag that closes an inner element would find that element by the same name.
  rcases Nat.lt_or_eq_of_le hle with hlt | rfl
  · exact absurd hnamed (hinside inner hinner hlt)
  · exact hclosed

/-- What is open inside an open element is inside it in every forest the text may become. -/
theorem Forest.isInside_of_mem_pending {k outer inner : Nat} {ending : Ending}
    {entry : Nat × Element} (houter : outer ∈ (Ledger.after cs (events.take k)).pending)
    (hinner : inner ∈ (Ledger.after cs (events.take k)).pending) (hlt : outer < inner)
    (hentry : (Node.listedAll 0
      (ofBuilder cs (Builder.after cs events) ending))[outer]? = some entry)
    (hexists : inner < (Node.listedAll 0
      (ofBuilder cs (Builder.after cs events) ending)).length) :
    inner < outer + 1 + (Node.elementsOfAll entry.2.children).length := by
  rw [Builder.pending_ledger_after] at houter hinner
  have hrow : ∀ number ≤ inner, ∀ next, (Node.listedAll 0
      (ofBuilder cs (Builder.after cs events) ending))[number]? = some next →
      ∃ row, (Builder.after cs (events.take k)).rows[number]? = some row ∧ row.depth = next.1 := by
    intro number hnumber next hnext
    obtain ⟨row, hrow, hdepth, -⟩ := exists_row_of_getElem?_listedAll hnext
    have hearlier := List.getElem?_eq_getElem
      (Nat.lt_of_le_of_lt hnumber (Builder.lt_length_of_mem_numbers hinner))
    obtain ⟨later, hlater, hsame⟩ :=
      Builder.getElem?_rows_after_append cs (events.take k) (events.drop k) hearlier
    rw [List.take_append_drop, hrow] at hlater
    obtain rfl := Option.some.inj hlater
    exact ⟨_, hearlier, hsame.symm.trans hdepth.symm⟩
  obtain ⟨outerRow, houterRow, houterDepth⟩ := hrow outer (Nat.le_of_lt hlt) entry hentry
  -- All elements after the outer one, up to the inner one, are deeper than the outer one.
  refine Node.lt_of_deeper (Node.isListedAt_listedAll hentry) hexists ?_
  intro number next hafter hbefore hnext
  obtain ⟨row, hrow, hdepth⟩ := hrow number hbefore next hnext
  rw [← houterDepth, ← hdepth]
  exact Builder.depth_lt_of_mem_numbers houter hafter houterRow hrow

end Innermost

/-- What the forest of a text has to do with the events of the text. An element has the number of
its place in the forest, in document order. -/
structure StackDiscipline (cs : List Char) (events : List Reading) (forest : Forest) : Prop where
  /-- The elements are those that tags with a name begin, each once and in the order of the text. -/
  openings : forest.elements.map (·.tag.opening) = events.filterMap (Reading.opening? cs)
  /-- After any number of events, the ledger's open elements are those on the reader's stack. -/
  pending : ∀ k,
    ((Builder.after cs (events.take k)).pending.map fun element => some element.opening) =
      (Ledger.after cs (events.take k)).pending.map fun number =>
        (events.filterMap (Reading.opening? cs))[number]?
  /-- An element closes itself when its tag does. -/
  selfClosing_iff : ∀ (number : Nat) (element : Element), forest.elements[number]? = some element →
    (element.tag.closing = .selfClosing ↔
      (events.filterMap (Reading.opening? cs))[number]?.map Opening.closesItself = some true)
  /-- An element has an end tag when some event is its end tag. -/
  endTag_iff : ∀ (number : Nat) (element : Element), forest.elements[number]? = some element →
    (element.tag.closing = .endTag ↔ ∃ k, ClosedBy cs events k number)
  /-- An end tag closes one element at most. -/
  closedBy_unique : ∀ k number other, ClosedBy cs events k number → ClosedBy cs events k other →
    number = other
  /-- It closes the open element that has its name and has no open element of that name inside. -/
  closedBy_iff : ∀ k number, ClosedBy cs events k number ↔
    number ∈ (Ledger.after cs (events.take k)).pending ∧
      ∃ reading, events[k]? = some reading ∧ ∃ name, reading.event.closingName? = some name ∧
        (events.filterMap (Reading.opening? cs))[number]?.map Opening.name = some name ∧
        ∀ inner ∈ (Ledger.after cs (events.take k)).pending, number < inner →
          (events.filterMap (Reading.opening? cs))[inner]?.map Opening.name ≠ some name
  /-- An end tag whose name no open element has changes nothing. -/
  stray : ∀ k reading name, events[k]? = some reading → reading.event.closingName? = some name →
    (∀ number ∈ (Ledger.after cs (events.take k)).pending,
      (events.filterMap (Reading.opening? cs))[number]?.map Opening.name ≠ some name) →
    Builder.after cs (events.take (k + 1)) = Builder.after cs (events.take k)
  /-- While an element is open that never gets its end tag, every end tag of its name closes an
  element inside it. -/
  inside : ∀ (number : Nat) (element : Element), forest.elements[number]? = some element →
    element.tag.closing = .missing ∨ element.tag.closing = .unknown →
    ∀ k reading, events[k]? = some reading → reading.event.closingName? = some element.tag.name →
      number ∈ (Ledger.after cs (events.take k)).pending →
      ∃ place, ClosedBy cs events k (number + 1 + place) ∧
        place < (Node.elementsOfAll element.children).length ∧
        forest.elements[number + 1 + place]? = (Node.elementsOfAll element.children)[place]?
  /-- What became of an element is unknown when reading broke off while it was open. -/
  unknown_iff : ∀ (number : Nat) (element : Element), forest.elements[number]? = some element →
    (element.tag.closing = .unknown ↔
      forest.errorPosition.isSome = true ∧ number ∈ (Ledger.after cs events).pending)

namespace Forest

/-- An end tag whose name no open element has changes nothing. -/
theorem after_take_succ_of_stray {cs : List Char} {events : List Reading} {k : Nat}
    {reading : Reading} {name : String} (hreading : events[k]? = some reading)
    (hname : reading.event.closingName? = some name)
    (hstray : ∀ number ∈ (Ledger.after cs (events.take k)).pending,
      (events.filterMap (Reading.opening? cs))[number]?.map Opening.name ≠ some name) :
    Builder.after cs (events.take (k + 1)) = Builder.after cs (events.take k) := by
  have hnone : (Builder.after cs (events.take k)).pending.findIdx? (·.name == name) = none := by
    rw [Builder.findIdx?_pending, List.findIdx?_eq_none_iff, Builder.ledger_after,
      ← Builder.pending_ledger_after]
    intro number hmem
    rw [Bool.eq_false_iff]
    exact fun hnamed => hstray number hmem ((isNamed_iff_of_mem_pending hmem).1 hnamed)
  rw [List.take_add_one, hreading, Option.toList_some, Builder.after_concat,
    Builder.read_of_closingName? cs _ hname, Builder.closeElement, hnone]

/-- An element of the forest of a text with the row it was finished from. -/
theorem exists_row_of_getElem?_elements {cs : List Char} {number : Nat} {element : Element}
    (h : (read cs).elements[number]? = some element) :
    ∃ entry row, (Node.listedAll 0 (read cs).nodes)[number]? = some entry ∧ entry.2 = element ∧
      (Builder.after cs (readings cs).1).rows[number]? = some row ∧
      element.tag.opening = row.opening ∧
      element.tag.closing = row.closing.getD (readings cs).2.closing := by
  rw [elements, ← Node.map_listedAll 0, List.getElem?_map] at h
  obtain ⟨entry, hentry, rfl⟩ := Option.map_eq_some_iff.1 h
  obtain ⟨row, hrow, -, hopening, hclosing⟩ := exists_row_of_getElem?_listedAll hentry
  exact ⟨entry, row, hentry, rfl, hrow, hopening, hclosing⟩

/-- The elements of the forest of a text are those its events begin. -/
theorem map_opening_elements (cs : List Char) :
    (read cs).elements.map (·.tag.opening) =
      (readings cs).1.filterMap (Reading.opening? cs) := by
  rw [← Ledger.openings_after, ← Builder.ledger_after, Builder.ledger, elements,
    ← Node.map_listedAll 0, List.map_map]
  apply List.ext_getElem?
  intro number
  have hrows := getElem?_listedAll_ofBuilder cs (Builder.after cs (readings cs).1)
    (readings cs).2 number
  calc ((Node.listedAll 0 (read cs).nodes).map ((·.tag.opening) ∘ Prod.snd))[number]?
      = ((Node.listedAll 0 (read cs).nodes)[number]?.map Row.ofListed).map Row.opening := by
        rw [List.getElem?_map, Option.map_map]; rfl
    _ = ((Builder.after cs (readings cs).1).rows[number]?).map Row.opening := by
        refine (congrArg (Option.map Row.opening) hrows).trans ?_
        split
        · rw [Option.map_map]; rfl
        · rfl
    _ = ((Builder.after cs (readings cs).1).rows.map Row.opening)[number]? :=
        List.getElem?_map.symm

/-- While an element is open that never gets its end tag, every end tag of its name closes an
element inside it. -/
theorem exists_closedBy_inside {cs : List Char} {k number : Nat} {element : Element}
    {reading : Reading} (h : (read cs).elements[number]? = some element)
    (hnever : ¬∃ k, ClosedBy cs (readings cs).1 k number)
    (hreading : (readings cs).1[k]? = some reading)
    (hname : reading.event.closingName? = some element.tag.name)
    (hmem : number ∈ (Ledger.after cs ((readings cs).1.take k)).pending) :
    ∃ place, ClosedBy cs (readings cs).1 k (number + 1 + place) ∧
      place < (Node.elementsOfAll element.children).length ∧
      (read cs).elements[number + 1 + place]? = (Node.elementsOfAll element.children)[place]? := by
  have hnumber : ((readings cs).1.filterMap (Reading.opening? cs))[number]?.map Opening.name =
      some element.tag.name := by
    rw [← map_opening_elements, List.getElem?_map, h]
    rfl
  obtain ⟨inner, hle, hclosed⟩ := exists_closedBy_of_mem_pending hreading hname hmem hnumber
  have hlt : number < inner := by
    refine Nat.lt_of_le_of_ne hle fun heq => hnever ⟨k, ?_⟩
    rwa [heq]
  -- The element closed is behind this one, and open at the same time, so it is inside.
  obtain ⟨place, rfl⟩ : ∃ place, inner = number + 1 + place := ⟨inner - (number + 1), by omega⟩
  obtain ⟨entry, row, hentry, rfl, -⟩ := exists_row_of_getElem?_elements h
  have hinner := hclosed.innermost.1
  have hexists : number + 1 + place < (Node.listedAll 0 (read cs).nodes).length := by
    obtain ⟨opening, hopening⟩ : ∃ opening,
        ((readings cs).1.filterMap (Reading.opening? cs))[number + 1 + place]? = some opening := by
      rw [← Ledger.getElem?_openings_take (lt_length_of_mem_pending hinner)]
      exact ⟨_, List.getElem?_eq_getElem (lt_length_of_mem_pending hinner)⟩
    rw [← map_opening_elements] at hopening
    rw [List.getElem?_map] at hopening
    obtain ⟨element, helement, -⟩ := Option.map_eq_some_iff.1 hopening
    rw [Node.length_listedAll]
    exact (List.getElem?_eq_some_iff.1 helement).1
  have hinside := isInside_of_mem_pending hmem hinner hlt hentry hexists
  have hplace : place < (Node.elementsOfAll entry.2.children).length := by omega
  exact ⟨place, hclosed, hplace, Node.getElem?_elementsOfAll_of_isListedAt
    (Node.isListedAt_listedAll hentry) hplace⟩

/-- There is an error position when the elements still open at the end are marked as unknown. -/
theorem isSome_errorPosition_iff (cs : List Char) :
    (read cs).errorPosition.isSome = true ↔ (readings cs).2.closing = .unknown := by
  show (match (readings cs).2 with
    | .finished _ => none
    | .broken position => some position).isSome = true ↔ _
  cases (readings cs).2 <;> simp [Ending.closing]

/-- Every text is read with the elements its events begin, each closed by the end tag that is its
own. -/
theorem read_stackDiscipline (cs : List Char) :
    StackDiscipline cs (readings cs).1 (read cs) where
  openings := map_opening_elements cs
  pending k := by
    rw [← Builder.map_numbers, Builder.pending_ledger_after]
    refine List.map_congr_left ?_
    intro number hmem
    rw [← Builder.pending_ledger_after] at hmem
    rw [← Ledger.getElem?_openings_take (lt_length_of_mem_pending hmem), ← Builder.ledger_after,
      Builder.ledger, List.getElem?_map]
  selfClosing_iff number element h := by
    rw [← map_opening_elements, List.getElem?_map, h]
    simp [Tag.opening]
  endTag_iff number element h := by
    obtain ⟨entry, row, -, -, hrow, -, hclosing⟩ := exists_row_of_getElem?_elements h
    have hmarked := Builder.closing_eq_some_iff hrow .endTag
    simp only [reduceCtorEq, false_and, false_or, markedBy_endTag_iff] at hmarked
    rw [← hmarked, hclosing]
    cases row.closing with
    | none => cases (readings cs).2 <;> simp [Ending.closing]
    | some closing => simp
  closedBy_unique k number other := by
    rintro ⟨reading, hreading, hclosed⟩ ⟨reading', hreading', hclosed'⟩
    obtain rfl := Option.some.inj (hreading.symm.trans hreading')
    exact Option.some.inj (hclosed.symm.trans hclosed')
  closedBy_iff _ _ := closedBy_iff
  stray k reading name hreading hname hstray := after_take_succ_of_stray hreading hname hstray
  inside number element h hopen k reading hreading hname hmem := by
    refine exists_closedBy_inside h ?_ hreading hname hmem
    intro hclosed
    -- An element with an end tag would be neither missing nor unknown.
    obtain ⟨entry, row, -, -, hrow, -, hclosing⟩ := exists_row_of_getElem?_elements h
    simp only [← markedBy_endTag_iff] at hclosed
    have hmarked := (Builder.closing_eq_some_iff hrow .endTag).2 (Or.inr hclosed)
    rw [hclosing, hmarked] at hopen
    simp at hopen
  unknown_iff number element h := by
    obtain ⟨entry, row, -, -, hrow, -, hclosing⟩ := exists_row_of_getElem?_elements h
    have hmarked := Builder.closing_eq_some_iff hrow .unknown
    have hnever : ¬∃ k, MarkedBy cs (readings cs).1 k number .unknown := by
      rintro ⟨k, reading, -, hmark⟩
      exact Ledger.mark?_ne_unknown hmark
    simp only [reduceCtorEq, false_and, false_or, hnever, iff_false] at hmarked
    rw [isSome_errorPosition_iff, Builder.pending_ledger_after,
      ← Builder.closing_eq_none_iff hrow, hclosing]
    cases hrowClosing : row.closing with
    | none => simp
    | some closing =>
      rw [hrowClosing] at hmarked
      simpa using hmarked

end Forest
end DocAudit.Markup

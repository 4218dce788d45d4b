import DocAudit.Proofs.Markup.Preorder

/-!
# A forest under construction, element by element

A forest under construction has a row of elements as well, in document order. The elements still
open have no closing mark yet, and their numbers go down from the innermost one.

* `Builder.rows_attach`, `Builder.rows_openElement`: what is read later comes later;
* `Builder.getElem?_rows_finishMany`: finishing elements sets their closing marks, no more;
* `Builder.closing_eq_none_iff`: the elements without a closing mark are those still open;
* `Builder.depth_lt_of_mem_numbers`: what follows an open element is inside it.
-/

namespace DocAudit.Markup

/-- What the tag that begins an element says about it. -/
structure Opening where
  /-- The name after the first colon. -/
  name : String
  /-- The attributes in the order they are written. -/
  attributes : List Attribute
  /-- Where the tag starts. -/
  start : Nat
  /-- The tag closes itself. -/
  closesItself : Bool
deriving DecidableEq, Repr

/-- What an element keeps of the tag that began it. -/
def Tag.opening (tag : Tag) : Opening :=
  ⟨tag.name, tag.attributes, tag.span.start, tag.closing == .selfClosing⟩

/-- What an open element keeps of its start tag. -/
def OpenElement.opening (element : OpenElement) : Opening :=
  ⟨element.name, element.attributes, element.start, false⟩

/-- An element of a forest under construction. -/
structure Row where
  /-- The number of elements around it. -/
  depth : Nat
  /-- What its first tag says. -/
  opening : Opening
  /-- How it was terminated, unless it is still open. -/
  closing : Option Closing
deriving DecidableEq, Repr

namespace Row

/-- A finished element. -/
def ofListed (entry : Nat × Element) : Row :=
  ⟨entry.1, entry.2.tag.opening, some entry.2.tag.closing⟩

/-- An element that has just begun: its tag terminates it or leaves it open. -/
def begun (depth : Nat) (opening : Opening) : Row :=
  ⟨depth, opening, if opening.closesItself then some .selfClosing else none⟩

/-- The element once it is terminated. -/
def close (closing : Closing) (row : Row) : Row :=
  { row with closing := some closing }

/-- The element with a closing mark, if one is given. -/
def mark (closing : Option Closing) (row : Row) : Row :=
  { row with closing := closing.or row.closing }

@[simp]
theorem mark_none : mark none = id := rfl

@[simp]
theorem mark_some (closing : Closing) : mark (some closing) = close closing := rfl

theorem closing_ne_none_of_mem {entries : List (Nat × Element)} {row : Row}
    (h : row ∈ entries.map ofListed) : row.closing ≠ none := by
  obtain ⟨entry, -, rfl⟩ := List.mem_map.1 h
  simp [ofListed]

end Row

namespace Builder

/-- The elements that are still open, and those inside them. -/
def rowsOfPending : List OpenElement → List Row
  | [] => []
  | element :: outer =>
    rowsOfPending outer ++
      ⟨outer.length, element.opening, none⟩ ::
        (Node.listedAll (outer.length + 1) element.children).map Row.ofListed

/-- All elements in document order. -/
def rows (builder : Builder) : List Row :=
  (Node.listedAll 0 builder.roots).map Row.ofListed ++ rowsOfPending builder.pending

/-- The numbers of open elements, where `count` elements stand outside of all of them. -/
def numbersOfPending (count : Nat) : List OpenElement → List Nat
  | [] => []
  | _ :: outer => (count + (rowsOfPending outer).length) :: numbersOfPending count outer

/-- The numbers of the elements still open, innermost first. -/
def numbers (builder : Builder) : List Nat :=
  numbersOfPending (Node.listedAll 0 builder.roots).length builder.pending

@[simp]
theorem rows_empty : empty.rows = [] := by
  simp [empty, rows, rowsOfPending]

@[simp]
theorem numbers_empty : empty.numbers = [] := rfl

theorem rows_cons (roots : List Node) (element : OpenElement) (outer : List OpenElement) :
    rows ⟨roots, element :: outer⟩ =
      rows ⟨roots, outer⟩ ++
        ⟨outer.length, element.opening, none⟩ ::
          (Node.listedAll (outer.length + 1) element.children).map Row.ofListed := by
  simp [rows, rowsOfPending]

theorem numbers_cons (roots : List Node) (element : OpenElement) (outer : List OpenElement) :
    numbers ⟨roots, element :: outer⟩ =
      (rows ⟨roots, outer⟩).length :: numbers ⟨roots, outer⟩ := by
  simp [numbers, numbersOfPending, rows]

@[simp]
theorem length_numbers (builder : Builder) : builder.numbers.length = builder.pending.length := by
  obtain ⟨roots, pending⟩ := builder
  induction pending with
  | nil => rfl
  | cons element outer ih => simp only [numbers_cons, List.length_cons, ih]

/-! ## What is read later comes later -/

/-- A finished node goes to the end. -/
theorem rows_attach (node : Node) (builder : Builder) :
    (builder.attach node).rows =
      builder.rows ++ (node.listed builder.pending.length).map Row.ofListed := by
  obtain ⟨roots, pending⟩ := builder
  cases pending with
  | nil => simp [attach, rows, rowsOfPending, Node.listedAll_singleton]
  | cons element outer =>
    simp [attach, rows_cons, OpenElement.add, OpenElement.opening, Node.listedAll_singleton]

/-- A finished node opens and closes nothing. -/
@[simp]
theorem numbers_attach (node : Node) (builder : Builder) :
    (builder.attach node).numbers = builder.numbers := by
  obtain ⟨roots, pending⟩ := builder
  cases pending with
  | nil => rfl
  | cons element outer => simp [attach, numbers_cons]

/-- Text adds no element. -/
@[simp]
theorem rows_attachText (start : Nat) (content : List Char) (builder : Builder) :
    (builder.attachText start content).rows = builder.rows := by
  unfold attachText
  split
  · rfl
  · simp [rows_attach, Node.listed]

/-- Text opens and closes nothing. -/
@[simp]
theorem numbers_attachText (start : Nat) (content : List Char) (builder : Builder) :
    (builder.attachText start content).numbers = builder.numbers := by
  unfold attachText
  split <;> simp

/-- A start tag adds an element at the end. -/
theorem rows_openElement (name attributes : List Char) (start : Nat) (builder : Builder) :
    (builder.openElement name attributes start).rows =
      builder.rows ++
        [⟨builder.pending.length,
          ⟨String.ofList (localName name), Attribute.parseAll attributes, start, false⟩,
          none⟩] := by
  obtain ⟨roots, pending⟩ := builder
  simp [openElement, rows_cons, OpenElement.opening]

/-- The element of a start tag is open. -/
theorem numbers_openElement (name attributes : List Char) (start : Nat) (builder : Builder) :
    (builder.openElement name attributes start).numbers =
      builder.rows.length :: builder.numbers := by
  obtain ⟨roots, pending⟩ := builder
  simp [openElement, numbers_cons]

/-! ## Finishing elements -/

/-- Finishing an element sets its closing mark. -/
theorem rows_finish {closing : Closing} (stop : Nat) {builder : Builder} {number : Nat}
    {outer : List Nat} (h : builder.numbers = number :: outer)
    (hclosing : (closing == .selfClosing) = false) :
    (builder.finish closing stop).rows = builder.rows.modify number (Row.close closing) := by
  obtain ⟨roots, _ | ⟨element, pending⟩⟩ := builder
  · cases h
  · rw [numbers_cons] at h
    obtain ⟨rfl, -⟩ := List.cons.inj h
    rw [finish, rows_attach, rows_cons, List.modify,
      ← Nat.add_zero (rows ⟨roots, pending⟩).length, List.modifyTailIdx_add]
    simp [OpenElement.toNode, Node.listed, Row.ofListed, Row.close, Tag.opening, hclosing,
      OpenElement.opening]

/-- Finishing an element leaves those around it open. -/
@[simp]
theorem numbers_finish (closing : Closing) (stop : Nat) (builder : Builder) :
    (builder.finish closing stop).numbers = builder.numbers.tail := by
  obtain ⟨roots, _ | ⟨element, pending⟩⟩ := builder
  · rfl
  · simp [finish, numbers_cons]

@[simp]
theorem numbers_finishMany (closing : Closing) (stop count : Nat) (builder : Builder) :
    (builder.finishMany closing stop count).numbers = builder.numbers.drop count := by
  induction count generalizing builder with
  | zero => rfl
  | succ count ih => rw [finishMany, ih, numbers_finish, List.drop_tail]

/-- Finishing the innermost elements sets their closing marks and changes nothing else. -/
theorem getElem?_rows_finishMany {closing : Closing} (stop count : Nat) (builder : Builder)
    (hclosing : (closing == .selfClosing) = false) (number : Nat) :
    (builder.finishMany closing stop count).rows[number]? =
      if number ∈ builder.numbers.take count then
        builder.rows[number]?.map (Row.close closing)
      else builder.rows[number]? := by
  induction count generalizing builder with
  | zero => simp [finishMany]
  | succ count ih =>
    rw [finishMany, ih, numbers_finish]
    cases h : builder.numbers with
    | nil =>
      obtain ⟨roots, _ | ⟨element, pending⟩⟩ := builder
      · simp [finish]
      · simp [numbers_cons] at h
    | cons innermost outer =>
      rw [rows_finish stop h hclosing, List.getElem?_modify]
      -- The first step marks the innermost element, and the rest leave it alone.
      by_cases hnumber : innermost = number
      · subst hnumber
        simp only [List.mem_cons, true_or, if_true, List.take_succ_cons, List.tail_cons]
        cases builder.rows[innermost]? <;> simp [Row.close]
      · simp [hnumber, Ne.symm hnumber]

/-! ## The open elements -/

theorem lt_length_of_mem_numbers {builder : Builder} {number : Nat}
    (h : number ∈ builder.numbers) : number < builder.rows.length := by
  obtain ⟨roots, pending⟩ := builder
  induction pending with
  | nil => cases h
  | cons element outer ih =>
    rw [rows_cons, List.length_append, List.length_cons]
    rw [numbers_cons] at h
    rcases List.mem_cons.1 h with rfl | inside
    · omega
    · have := ih inside
      omega

/-- The numbers of the open elements go down from the innermost one. -/
theorem pairwise_numbers (builder : Builder) : builder.numbers.Pairwise (· > ·) := by
  obtain ⟨roots, pending⟩ := builder
  induction pending with
  | nil => exact List.Pairwise.nil
  | cons element outer ih =>
    rw [numbers_cons]
    refine List.pairwise_cons.2 ⟨?_, ih⟩
    intro number h
    exact lt_length_of_mem_numbers h

/-- The open elements stand at their numbers. -/
theorem map_numbers (builder : Builder) :
    builder.numbers.map (fun number => builder.rows[number]?.map Row.opening) =
      builder.pending.map fun element => some element.opening := by
  obtain ⟨roots, pending⟩ := builder
  induction pending with
  | nil => rfl
  | cons element outer ih =>
    have innermost : (rows ⟨roots, element :: outer⟩)[(rows ⟨roots, outer⟩).length]? =
        some ⟨outer.length, element.opening, none⟩ := by
      rw [rows_cons, List.getElem?_append_right (Nat.le_refl _), Nat.sub_self,
        List.getElem?_cons_zero]
    rw [numbers_cons, List.map_cons, List.map_cons, innermost, ← ih]
    -- The elements around it stand where they stood without it.
    apply congrArg (_ :: ·)
    refine List.map_congr_left ?_
    intro number h
    rw [rows_cons, List.getElem?_append_left (lt_length_of_mem_numbers h)]

/-- The elements without a closing mark are those still open. -/
theorem closing_eq_none_iff {builder : Builder} {number : Nat} {row : Row}
    (h : builder.rows[number]? = some row) : row.closing = none ↔ number ∈ builder.numbers := by
  obtain ⟨roots, pending⟩ := builder
  induction pending with
  | nil =>
    rw [rows, rowsOfPending, List.append_nil] at h
    simpa [numbers, numbersOfPending] using
      Row.closing_ne_none_of_mem (List.mem_of_getElem? h)
  | cons element outer ih =>
    rw [rows_cons] at h
    rw [numbers_cons, List.mem_cons]
    rcases Nat.lt_or_ge number (rows ⟨roots, outer⟩).length with before | after
    · rw [List.getElem?_append_left before] at h
      simp [ih h, Nat.ne_of_lt before]
    · -- Behind the outer elements only the innermost open one has no mark.
      rw [List.getElem?_append_right after] at h
      have notOuter : number ∉ numbers ⟨roots, outer⟩ := fun hmem =>
        Nat.not_lt.2 after (lt_length_of_mem_numbers hmem)
      obtain ⟨place, rfl⟩ := Nat.exists_eq_add_of_le after
      rw [Nat.add_sub_cancel_left] at h
      cases place with
      | zero =>
        obtain rfl : _ = row := Option.some.inj h
        simp
      | succ place =>
        rw [List.getElem?_cons_succ] at h
        simpa [notOuter] using Row.closing_ne_none_of_mem (List.mem_of_getElem? h)

theorem depth_lt_length_pending {builder : Builder} {number : Nat} {row : Row}
    (hnumber : number ∈ builder.numbers) (h : builder.rows[number]? = some row) :
    row.depth < builder.pending.length := by
  obtain ⟨roots, pending⟩ := builder
  induction pending with
  | nil => cases hnumber
  | cons element outer ih =>
    rw [rows_cons] at h
    rw [numbers_cons] at hnumber
    rcases List.mem_cons.1 hnumber with rfl | inside
    · rw [List.getElem?_append_right (Nat.le_refl _), Nat.sub_self] at h
      obtain rfl : _ = row := Option.some.inj h
      exact Nat.lt_succ_self _
    · rw [List.getElem?_append_left (lt_length_of_mem_numbers inside)] at h
      exact Nat.lt_succ_of_lt (ih inside h)

/-- What follows an open element is inside it. -/
theorem depth_lt_of_mem_numbers {builder : Builder} {outer inner : Nat} {outerRow innerRow : Row}
    (hmem : outer ∈ builder.numbers) (hlt : outer < inner)
    (houter : builder.rows[outer]? = some outerRow)
    (hinner : builder.rows[inner]? = some innerRow) :
    outerRow.depth < innerRow.depth := by
  obtain ⟨roots, pending⟩ := builder
  induction pending with
  | nil => cases hmem
  | cons element pending ih =>
    have inside_le : ∀ row ∈ (⟨pending.length, element.opening, none⟩ : Row) ::
        (Node.listedAll (pending.length + 1) element.children).map Row.ofListed,
        pending.length ≤ row.depth := by
      intro row hrow
      rcases List.mem_cons.1 hrow with rfl | hrow
      · exact Nat.le_refl _
      · obtain ⟨entry, hentry, rfl⟩ := List.mem_map.1 hrow
        exact Nat.le_of_succ_le (Node.le_of_mem_listedAll hentry)
    rw [numbers_cons] at hmem
    rw [rows_cons] at houter hinner
    rcases List.mem_cons.1 hmem with rfl | hmem
    · -- What follows the innermost open element is listed with it.
      rw [List.getElem?_append_right (Nat.le_refl _), Nat.sub_self] at houter
      rw [List.getElem?_append_right (Nat.le_of_lt hlt)] at hinner
      obtain rfl : _ = outerRow := Option.some.inj houter
      obtain ⟨place, rfl⟩ := Nat.exists_eq_add_of_lt hlt
      rw [Nat.add_assoc, Nat.add_sub_cancel_left, List.getElem?_cons_succ] at hinner
      obtain ⟨entry, hentry, rfl⟩ := List.mem_map.1 (List.mem_of_getElem? hinner)
      exact Node.le_of_mem_listedAll hentry
    · have hlength := lt_length_of_mem_numbers hmem
      rw [List.getElem?_append_left hlength] at houter
      rcases Nat.lt_or_ge inner (rows ⟨roots, pending⟩).length with before | after
      · rw [List.getElem?_append_left before] at hinner
        exact ih hmem houter hinner
      · -- The innermost open element is inside all others, and so is what it holds.
        rw [List.getElem?_append_right after] at hinner
        exact Nat.lt_of_lt_of_le (depth_lt_length_pending hmem houter)
          (inside_le _ (List.mem_of_getElem? hinner))

end Builder
end DocAudit.Markup

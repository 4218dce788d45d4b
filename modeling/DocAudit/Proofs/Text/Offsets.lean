import DocAudit.Proofs.Text.Checked

/-!
# Offsets, lines and columns

The line of an offset is told by the line feeds in front of it, and the column by the characters
between the last of these and the offset. An offset inside of a character counts as one in front of
that character, and an offset behind the text as its end.

So lines and columns go up with the offset, and no two boundaries have the same.

* `IsFloor`, `IsLineStart`: the boundary an offset counts as, and the start of its line;
* `HasPlace`, `hasPlace_locate`: the line and the column of an offset in terms of these;
* `locate_eq_or_before`, `eq_of_locate_eq`, `compare_locate`: the order of offsets is that of places.
-/

namespace DocAudit.Text

/-! ## Line feeds and their bytes -/

/-- The byte of the line feed stands for line feeds and for nothing else. -/
theorem count_bytes (cs : List Char) : (bytes cs).count 0x0A = cs.count '\n' := by
  induction cs with
  | nil => rfl
  | cons c cs ih =>
    rw [bytes_cons, List.count_append, ih]
    by_cases hc : c = '\n'
    · rw [hc, List.count_cons_self, Nat.add_comm]
      rfl
    · have hnone : (String.utf8EncodeChar c).count 0x0A = 0 :=
        List.count_eq_zero.2 fun h => ne_lineFeed_of_mem_utf8EncodeChar hc _ h rfl
      rw [hnone, Nat.zero_add, List.count_cons_of_ne hc]

theorem lineFeed_notMem_bytes {cs : List Char} (h : '\n' ∉ cs) : (0x0A : UInt8) ∉ bytes cs := by
  rw [← List.count_eq_zero, count_bytes, List.count_eq_zero]
  exact h

section Inside

variable {before after : List Char} {inside : Nat}
  (h : inside = 0 ∨ ∃ c rest, after = c :: rest ∧ inside < c.utf8Size)
include h

/-- Inside of a character no line has ended. -/
theorem lineFeed_notMem_take : (0x0A : UInt8) ∉ (bytes after).take inside := by
  rcases h with rfl | ⟨c, rest, rfl, hlt⟩
  · simp
  · have hfirst : (bytes (c :: rest)).take inside = (String.utf8EncodeChar c).take inside := by
      rw [bytes_cons, List.take_append_of_le_length]
      rw [String.length_utf8EncodeChar]
      exact Nat.le_of_lt hlt
    rw [hfirst]
    intro hmem
    by_cases hc : c = '\n'
    · -- A line feed has one byte, and nothing is inside of it.
      obtain rfl : inside = 0 := by
        rw [hc] at hlt
        exact Nat.lt_one_iff.1 hlt
      simp at hmem
    · exact ne_lineFeed_of_mem_utf8EncodeChar hc _ (List.mem_of_mem_take hmem) rfl

/-- The line feeds in front of an offset are those in front of the character there. -/
theorem count_take_bytes :
    ((bytes (before ++ after)).take (byteLength before + inside)).count 0x0A =
      before.count '\n' := by
  rw [bytes_append, ← length_bytes, List.take_length_add_append, List.count_append, count_bytes,
    List.count_eq_zero.2 (lineFeed_notMem_take h), Nat.add_zero]

end Inside

/-! ## Floors and line starts -/

/-- The last boundary that is not behind an offset. -/
structure IsFloor (cs : List Char) (offset floor : Nat) : Prop where
  /-- It is a boundary, -/
  isBoundary : isBoundary floor cs = true
  /-- not behind the offset, -/
  le : floor ≤ offset
  /-- and no boundary that is not behind the offset is behind it. -/
  last : ∀ other, Text.isBoundary other cs = true → other ≤ offset → other ≤ floor

/-- The start of the line of an offset: the offset just behind the last line feed in front of it, or
the start of the text. -/
structure IsLineStart (cs : List Char) (offset start : Nat) : Prop where
  /-- The line starts in front of the offset, or there. -/
  le : start ≤ offset
  /-- In front of it stands a line feed, or nothing. -/
  feed : start = 0 ∨ ∃ index, start = index + 1 ∧ (bytes cs)[index]? = some 0x0A
  /-- From there up to the offset stands no line feed. -/
  last : ∀ index, start ≤ index → index < offset → (bytes cs)[index]? ≠ some 0x0A

/-- The line and the column of an offset. An offset behind the text counts as the end. -/
structure HasPlace (cs : List Char) (offset : Nat) (place : Location) : Prop where
  /-- The line is told by the number of line feeds in front of the offset. -/
  line : place.line = 1 + ((bytes cs).take (min offset (byteLength cs))).count 0x0A
  /-- The column is told by the number of characters from the start of the line on. -/
  column : ∃ start floor, IsLineStart cs (min offset (byteLength cs)) start ∧
    IsFloor cs (min offset (byteLength cs)) floor ∧
      place.column = 1 + (slice start floor cs).length

theorem IsFloor.unique {cs : List Char} {offset floor other : Nat} (h : IsFloor cs offset floor)
    (hother : IsFloor cs offset other) : floor = other :=
  Nat.le_antisymm (hother.last floor h.isBoundary h.le) (h.last other hother.isBoundary hother.le)

/-- From inside of a character, the last boundary is the one in front of it. -/
theorem isFloor_append {before after : List Char} {inside : Nat}
    (h : inside = 0 ∨ ∃ c rest, after = c :: rest ∧ inside < c.utf8Size) :
    IsFloor (before ++ after) (byteLength before + inside) (byteLength before) := by
  refine ⟨isBoundary_append before after, Nat.le_add_right _ _, fun other hother hle => ?_⟩
  by_contra hbehind
  have hlt := Nat.lt_of_not_le hbehind
  obtain ⟨further, rfl⟩ := Nat.exists_eq_add_of_le (Nat.le_of_lt hlt)
  rw [isBoundary_add_append] at hother
  obtain ⟨c, rest, rfl, hinside⟩ := h.resolve_left (by omega)
  obtain ⟨n, rfl⟩ : ∃ n, further = n + 1 := ⟨further - 1, by omega⟩
  -- The next boundary is the one behind the character.
  rw [isBoundary, Bool.and_eq_true, decide_eq_true_eq] at hother
  omega

/-- A text ends with a line: what is in front of it ends with a line feed, and the place behind the
text is told by the line and what is in front of it. -/
theorem exists_last_line (before : List Char) :
    ∃ front line, before = front ++ line ∧ '\n' ∉ line ∧
      (front = [] ∨ ∃ more, front = more ++ ['\n']) ∧
      Location.first.behind before = ⟨1 + before.count '\n', 1 + line.length⟩ := by
  induction before using List.reverseRecOn with
  | nil => exact ⟨[], [], rfl, by simp, Or.inl rfl, rfl⟩
  | append_singleton before c ih =>
    obtain ⟨front, line, hsplit, hline, hfront, hbehind⟩ := ih
    have hnext : Location.first.behind (before ++ [c]) = (Location.first.behind before).next c :=
      List.foldl_append
    rw [hnext, hbehind, Location.next, List.count_append]
    by_cases hc : c = '\n'
    · -- A line feed ends the line, and the next line is empty so far.
      refine ⟨before ++ [c], [], by simp, by simp, Or.inr ⟨before, by rw [hc]⟩, ?_⟩
      rw [if_pos hc, hc]
      rfl
    · have hother : '\n' ∉ [c] := by simpa using Ne.symm hc
      refine ⟨front, line ++ [c], by rw [hsplit, List.append_assoc], ?_, hfront, ?_⟩
      · rw [List.mem_append, not_or]
        exact ⟨hline, hother⟩
      · rw [if_neg hc, List.count_eq_zero.2 hother, List.length_append]
        rfl

/-- The last line of what is in front of an offset starts where the line of the offset does. -/
theorem isLineStart_append {front line after : List Char} {inside : Nat} (hline : '\n' ∉ line)
    (hfront : front = [] ∨ ∃ more, front = more ++ ['\n'])
    (h : inside = 0 ∨ ∃ c rest, after = c :: rest ∧ inside < c.utf8Size) :
    IsLineStart (front ++ line ++ after) (byteLength (front ++ line) + inside)
      (byteLength front) := by
  refine ⟨?_, ?_, fun index hle hlt hfeed => ?_⟩
  · rw [byteLength_append]
    omega
  · refine hfront.imp (fun hnil => by rw [hnil]; rfl) ?_
    rintro ⟨more, rfl⟩
    have hsplit : more ++ ['\n'] ++ line ++ after = more ++ (['\n'] ++ (line ++ after)) := by simp
    refine ⟨byteLength more + 0, by rw [byteLength_append]; rfl, ?_⟩
    rw [hsplit, getElem?_bytes_middle more _ (by decide)]
    rfl
  · -- The byte is one of the line, or one inside of the character behind it.
    have hnone : (0x0A : UInt8) ∉ bytes line ++ (bytes after).take inside := by
      rw [List.mem_append, not_or]
      exact ⟨lineFeed_notMem_bytes hline, lineFeed_notMem_take h⟩
    obtain ⟨further, rfl⟩ := Nat.exists_eq_add_of_le hle
    rw [byteLength_append, Nat.add_assoc, Nat.add_lt_add_iff_left] at hlt
    rw [List.append_assoc, bytes_append, ← length_bytes front,
      List.getElem?_append_right (Nat.le_add_right _ _), Nat.add_sub_cancel_left, bytes_append]
      at hfeed
    have htake : ((bytes line ++ bytes after).take ((bytes line).length + inside))[further]? =
        some 0x0A := by
      rw [List.getElem?_take_of_lt (by rwa [length_bytes]), hfeed]
    rw [List.take_length_add_append] at htake
    exact hnone (List.mem_of_getElem? htake)

/-! ## Places -/

/-- The place of an offset is the place behind the boundary that it counts as. -/
theorem exists_locate_eq (cs : List Char) (offset : Nat) :
    ∃ before after inside, cs = before ++ after ∧
      min offset (byteLength cs) = byteLength before + inside ∧
      (inside = 0 ∨ ∃ c rest, after = c :: rest ∧ inside < c.utf8Size) ∧
      locate cs offset = Location.first.behind before := by
  obtain ⟨before, after, inside, rfl, hoffset, hinside⟩ :=
    exists_boundary_before (Nat.min_le_right offset (byteLength cs))
  refine ⟨before, after, inside, rfl, hoffset, hinside, ?_⟩
  rw [locate, ← Location.walk_min, hoffset, Location.walk_inside hinside]

/-- Every offset is located at its line and its column. -/
theorem hasPlace_locate (cs : List Char) (offset : Nat) :
    HasPlace cs offset (locate cs offset) := by
  obtain ⟨before, after, inside, rfl, hoffset, hinside, hplace⟩ := exists_locate_eq cs offset
  obtain ⟨front, line, rfl, hline, hfront, hbehind⟩ := exists_last_line before
  rw [hplace, hbehind]
  constructor
  · rw [hoffset, count_take_bytes hinside]
  · refine ⟨byteLength front, byteLength (front ++ line), ?_, ?_, ?_⟩
    · rw [hoffset]
      exact isLineStart_append hline hfront hinside
    · rw [hoffset]
      exact isFloor_append hinside
    · rw [byteLength_append, List.append_assoc, slice_middle]

/-- An offset is located where the boundary that it counts as is. -/
theorem locate_eq_of_isFloor {cs : List Char} {offset floor : Nat}
    (h : IsFloor cs (min offset (byteLength cs)) floor) : locate cs offset = locate cs floor := by
  obtain ⟨before, after, inside, rfl, hoffset, hinside, hplace⟩ := exists_locate_eq cs offset
  rw [hoffset] at h
  rw [hplace, (isFloor_append hinside).unique h |>.symm, locate, Location.walk_append]

theorem exists_isFloor (cs : List Char) (offset : Nat) :
    ∃ floor, IsFloor cs (min offset (byteLength cs)) floor := by
  obtain ⟨before, after, inside, rfl, hoffset, hinside, -⟩ := exists_locate_eq cs offset
  rw [hoffset]
  exact ⟨_, isFloor_append hinside⟩

section Order

variable {cs : List Char} {i j : Nat}

/-- A later offset has the same place or a later one. -/
theorem locate_eq_or_before (hij : i ≤ j) :
    locate cs i = locate cs j ∨ (locate cs i).Before (locate cs j) := by
  obtain ⟨first, hfirst⟩ := exists_isFloor cs i
  obtain ⟨second, hsecond⟩ := exists_isFloor cs j
  rw [locate_eq_of_isFloor hfirst, locate_eq_of_isFloor hsecond]
  have hle : first ≤ second :=
    hsecond.last first hfirst.isBoundary
      (Nat.le_trans hfirst.le (by omega))
  rcases Nat.eq_or_lt_of_le hle with rfl | hlt
  · exact Or.inl rfl
  · exact Or.inr (locate_before_of_isBoundary hfirst.isBoundary hsecond.isBoundary hlt)

variable (hi : isBoundary i cs = true) (hj : isBoundary j cs = true)
include hi hj

/-- No two boundaries have the same place. -/
theorem eq_of_locate_eq (h : locate cs i = locate cs j) : i = j := by
  rcases Nat.lt_trichotomy i j with hij | hij | hij
  · exact absurd h (locate_before_of_isBoundary hi hj hij).ne
  · exact hij
  · exact absurd h.symm (locate_before_of_isBoundary hj hi hij).ne

/-- Boundaries are ordered as their lines are, and on the same line as their columns are. -/
theorem compare_locate :
    (compare (locate cs i).line (locate cs j).line).then
      (compare (locate cs i).column (locate cs j).column) = compare i j := by
  have hlt {place later : Location} (h : place.Before later) :
      (compare place.line later.line).then (compare place.column later.column) = .lt := by
    rw [Ordering.then_eq_lt, Nat.compare_eq_lt, Nat.compare_eq_eq, Nat.compare_eq_lt]
    exact h
  have hgt {place later : Location} (h : later.Before place) :
      (compare place.line later.line).then (compare place.column later.column) = .gt := by
    rw [Ordering.then_eq_gt, Nat.compare_eq_gt, Nat.compare_eq_eq, Nat.compare_eq_gt]
    exact h.imp id fun ⟨hline, hcolumn⟩ => ⟨hline.symm, hcolumn⟩
  rcases Nat.lt_trichotomy i j with hij | rfl | hij
  · rw [hlt (locate_before_of_isBoundary hi hj hij), Nat.compare_eq_lt.2 hij]
  · simp
  · rw [hgt (locate_before_of_isBoundary hj hi hij), Nat.compare_eq_gt.2 hij]

end Order
end DocAudit.Text

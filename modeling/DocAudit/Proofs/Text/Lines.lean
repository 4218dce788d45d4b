import DocAudit.Text.Location
import DocAudit.Proofs.Text.Cuts

/-!
# Characters and their places

A character of a text stands at a byte offset, and people find it by the number of its line and its
number in that line. Both lead to the same character.

* `StandsAt`: the character that stands at a byte offset;
* `charAt?`: the character at a place as people read it;
* `charAt?_locate`: the place of an offset is that of the character that stands there;
* `locate_before_of_isBoundary`: boundaries have their places in the order in which they stand.
-/

namespace DocAudit.Text

/-- The character stands at a byte offset of the text. -/
def StandsAt (c : Char) (offset : Nat) (cs : List Char) : Prop :=
  ∃ before after, cs = before ++ c :: after ∧ byteLength before = offset

/-- What stands in a part of a text stands in the whole, further on by what is in front. -/
theorem StandsAt.middle {c : Char} {offset : Nat} {part : List Char} (h : StandsAt c offset part)
    (before after : List Char) :
    StandsAt c (byteLength before + offset) (before ++ (part ++ after)) := by
  obtain ⟨front, back, rfl, rfl⟩ := h
  refine ⟨before ++ front, back ++ after, ?_, byteLength_append before front⟩
  simp only [List.append_assoc, List.cons_append]

/-- No character stands behind the end of a text. -/
theorem StandsAt.lt_byteLength {c : Char} {offset : Nat} {cs : List Char}
    (h : StandsAt c offset cs) : offset < byteLength cs := by
  obtain ⟨before, after, rfl, rfl⟩ := h
  have positive := c.utf8Size_pos
  rw [byteLength_append, byteLength_cons]
  omega

theorem StandsAt.isBoundary {c : Char} {offset : Nat} {cs : List Char}
    (h : StandsAt c offset cs) : isBoundary offset cs = true := by
  obtain ⟨before, after, rfl, rfl⟩ := h
  exact isBoundary_append before (c :: after)

/-- A character of two texts with a separator between them, other than the separator, stands in one
of the two. -/
theorem StandsAt.cases_joined {c separator : Char} {offset : Nat} {xs ys : List Char}
    (h : StandsAt c offset (xs ++ separator :: ys)) (hne : c ≠ separator) :
    StandsAt c offset xs ∨
      ∃ rest, offset = byteLength xs + separator.utf8Size + rest ∧ StandsAt c rest ys := by
  obtain ⟨before, after, hsplit, rfl⟩ := h
  rcases List.append_eq_append_iff.1 hsplit with ⟨inside, rfl, hrest⟩ | ⟨inside, rfl, hrest⟩
  · -- The character comes after the first text, and is not the separator.
    cases inside with
    | nil => exact absurd (List.cons.inj hrest).1.symm hne
    | cons d inside =>
      obtain ⟨rfl, rfl⟩ := List.cons.inj hrest
      refine Or.inr ⟨byteLength inside, ?_, inside, after, rfl, rfl⟩
      rw [byteLength_append, byteLength_cons, Nat.add_assoc]
  · cases inside with
    | nil => exact absurd (List.cons.inj hrest).1 hne
    | cons d inside =>
      obtain ⟨rfl, -⟩ := List.cons.inj hrest
      exact Or.inl ⟨before, inside, rfl, rfl⟩

/-- The character at a place: on the line of that number, the character of that number, both counted
from one. -/
def charAt? (cs : List Char) : Location → Option Char
  | ⟨line + 1, column + 1⟩ => (splitAt '\n' cs)[line]?.bind (·[column]?)
  | _ => none

namespace Location

/-- The place just behind a text that starts at the given place. -/
def behind (place : Location) (cs : List Char) : Location :=
  cs.foldl next place

/-- Walking over the bytes of a leading part leads behind that part. -/
theorem walk_append (place : Location) (before after : List Char) :
    place.walk (byteLength before) (before ++ after) = place.behind before := by
  induction before generalizing place with
  | nil =>
    cases after with
    | nil => rfl
    | cons c after => exact if_pos c.utf8Size_pos
  | cons c before ih =>
    have hnot : ¬c.utf8Size + byteLength before < c.utf8Size := by omega
    rw [byteLength_cons, List.cons_append, walk, if_neg hnot, Nat.add_sub_cancel_left, ih]
    rfl

/-- Behind a leading part, a text goes on with the given character: so many lines further on, and so
many characters behind the start of its line, or behind the place where the text starts when that is
on the same line. -/
theorem exists_line_behind (place : Location) (before : List Char) {c : Char} (after : List Char)
    (hc : c ≠ '\n') :
    ∃ passed chars column, (splitAt '\n' (before ++ c :: after))[passed]? = some chars ∧
      chars[column]? = some c ∧
      place.behind before =
        ⟨place.line + passed, (if passed = 0 then place.column else 1) + column⟩ := by
  induction before generalizing place with
  | nil =>
    -- The character is the first of its line.
    obtain ⟨chars, hline⟩ : ∃ chars, (splitAt '\n' (c :: after))[0]? = some (c :: chars) := by
      rw [splitAt, if_neg hc]
      split
      · exact ⟨[], rfl⟩
      · next chars _ _ => exact ⟨chars, rfl⟩
    exact ⟨0, c :: chars, 0, hline, rfl, rfl⟩
  | cons d before ih =>
    obtain ⟨passed, chars, column, hline, hcolumn, hbehind⟩ := ih (place.next d)
    rw [behind, List.foldl_cons, ← behind, hbehind, List.cons_append, splitAt]
    by_cases hd : d = '\n'
    · -- A line feed ends the first line, and the rest is counted from the start of the next.
      rw [if_pos hd, next, if_pos hd]
      refine ⟨passed + 1, chars, column, hline, hcolumn, ?_⟩
      simp [Nat.add_comm 1 passed, Nat.add_assoc]
    · rw [if_neg hd, next, if_neg hd]
      cases hpieces : splitAt '\n' (before ++ c :: after) with
      | nil => exact absurd hpieces (splitAt_ne_nil _ _)
      | cons piece pieces =>
        rw [hpieces] at hline
        -- Any other character makes the first line longer by one, and no other line.
        cases passed with
        | zero =>
          obtain rfl : piece = chars := Option.some.inj hline
          exact ⟨0, d :: piece, column + 1, rfl, hcolumn, by simp; omega⟩
        | succ passed => exact ⟨passed + 1, chars, column, hline, hcolumn, by simp⟩

end Location

/-- The place of an offset is that of the character that stands there, if that ends no line. -/
theorem charAt?_locate {c : Char} {offset : Nat} {cs : List Char} (h : StandsAt c offset cs)
    (hc : c ≠ '\n') : charAt? cs (locate cs offset) = some c := by
  obtain ⟨before, after, rfl, rfl⟩ := h
  obtain ⟨passed, chars, column, hline, hcolumn, hbehind⟩ :=
    Location.first.exists_line_behind before after hc
  -- The text starts at the first character of the first line.
  have hplace : Location.first.behind before = ⟨passed + 1, column + 1⟩ := by
    rw [hbehind, Location.first]
    simp [Nat.add_comm]
  rw [locate, Location.walk_append, hplace, charAt?, hline, Option.bind_some, hcolumn]

/-! ## The order of places -/

namespace Location

/-- A place comes before another one: on an earlier line, or earlier in the same line. -/
def Before (place later : Location) : Prop :=
  place.line < later.line ∨ place.line = later.line ∧ place.column < later.column

theorem Before.trans {a b c : Location} (hab : a.Before b) (hbc : b.Before c) : a.Before c := by
  unfold Before at *
  omega

theorem Before.ne {place later : Location} (h : place.Before later) : place ≠ later := by
  rintro rfl
  unfold Before at h
  omega

theorem before_next (place : Location) (c : Char) : place.Before (place.next c) := by
  rw [next]
  split
  · exact Or.inl (Nat.lt_succ_self _)
  · exact Or.inr ⟨rfl, Nat.lt_succ_self _⟩

/-- A place comes before the one behind a text that is not empty. -/
theorem before_behind (place : Location) (c : Char) (cs : List Char) :
    place.Before (place.behind (c :: cs)) := by
  induction cs generalizing place c with
  | nil => exact place.before_next c
  | cons d cs ih => exact (place.before_next c).trans (ih (place.next c) d)

end Location

/-- Boundaries that stand one behind the other have places in the same order. -/
theorem locate_before_of_isBoundary {i j : Nat} {cs : List Char} (hi : isBoundary i cs = true)
    (hj : isBoundary j cs = true) (hij : i < j) : (locate cs i).Before (locate cs j) := by
  obtain ⟨before, rest, rfl, rfl⟩ := exists_append_of_isBoundary hi
  obtain ⟨further, rfl⟩ := Nat.exists_eq_add_of_le (Nat.le_of_lt hij)
  rw [isBoundary_add_append] at hj
  obtain ⟨between, after, rfl, rfl⟩ := exists_append_of_isBoundary hj
  rw [locate, locate, Location.walk_append, ← byteLength_append, ← List.append_assoc,
    Location.walk_append]
  -- What stands between the boundaries is not empty, and leads from the first place to the second.
  cases between with
  | nil => exact absurd hij (Nat.lt_irrefl _)
  | cons c between =>
    rw [Location.behind, Location.behind, List.foldl_append]
    exact Location.before_behind _ c between

/-- Characters that stand one behind the other have places in the same order. -/
theorem locate_before {c d : Char} {i j : Nat} {cs : List Char} (hi : StandsAt c i cs)
    (hj : StandsAt d j cs) (hij : i < j) : (locate cs i).Before (locate cs j) :=
  locate_before_of_isBoundary hi.isBoundary hj.isBoundary hij

end DocAudit.Text

import DocAudit.Proofs.Text.ByteOrder
import DocAudit.Proofs.Text.Lines
import Mathlib.Data.List.Induction

/-!
# Cuts that are checked

The cuts of a text are total, and so is the way from a byte offset to a line and a column. A program
that works on bytes has it less easy: it may cut a text only at boundaries and in the right order, look
up only what is there, and subtract only from what is no smaller. Here these operations stop with a
fault where they must not be used, and a computation that ends without a fault is one that kept to the
rules.

* `Fault`, `Checked`: computations that may stop with a fault;
* `search_append`: where a number stands among ascending ones, or would have to stand;
* `exists_lineStarts`: the table of line starts, and what it says of a leading part;
* `locateChecked_eq`: looking up a byte offset in that table never stops with a fault, and finds its
  place.
-/

namespace DocAudit

/-- What stops a computation on a text. -/
inductive Fault
  /-- A text was to be cut out of its range, in the wrong order or inside of a character. -/
  | slice
  /-- An entry was to be looked up that a list does not have. -/
  | index
  /-- A number was to be subtracted from a smaller one. -/
  | subtraction
deriving DecidableEq, Repr

/-- A result, or the fault that stopped the computation. -/
abbrev Checked (α : Type) : Type := Except Fault α

namespace Checked

variable {α β : Type}

@[simp]
theorem ok_bind (x : α) (f : α → Checked β) : ((.ok x : Checked α) >>= f) = f x := rfl

@[simp]
theorem error_bind (fault : Fault) (f : α → Checked β) :
    ((.error fault : Checked α) >>= f) = .error fault := rfl

/-- The entry of a list at an index. -/
def get (items : List α) (index : Nat) : Checked α :=
  match items[index]? with
  | some item => .ok item
  | none => .error .index

/-- A difference of numbers. -/
def sub (a b : Nat) : Checked Nat :=
  if b ≤ a then .ok (a - b) else .error .subtraction

theorem get_append_cons (xs : List α) (x : α) (ys : List α) :
    get (xs ++ x :: ys) xs.length = .ok x := by
  simp [get]

theorem sub_eq {a b : Nat} (h : b ≤ a) : sub a b = .ok (a - b) :=
  if_pos h

/-- A fault is the only one with which a computation may stop. -/
def StopsOnlyWith (fault : Fault) (x : Checked α) : Prop :=
  ∀ other, x = .error other → other = fault

namespace StopsOnlyWith

variable {fault : Fault}

theorem ok (x : α) : StopsOnlyWith fault (.ok x) := nofun

theorem bind {x : Checked α} {f : α → Checked β} (hx : x.StopsOnlyWith fault)
    (hf : ∀ a, (f a).StopsOnlyWith fault) : (x >>= f).StopsOnlyWith fault := by
  cases x with
  | error other =>
    obtain rfl := hx other rfl
    exact fun _ h => (Except.error.inj h).symm
  | ok a => exact hf a

end StopsOnlyWith
end Checked

namespace Text

theorem byteLength_reverse (cs : List Char) : byteLength cs.reverse = byteLength cs := by
  induction cs with
  | nil => rfl
  | cons c cs ih =>
    rw [List.reverse_cons, byteLength_append, ih, byteLength_cons, byteLength_cons, byteLength_nil,
      Nat.add_zero, Nat.add_comm]

theorem le_byteLength_of_isBoundary {offset : Nat} {cs : List Char}
    (h : isBoundary offset cs = true) : offset ≤ byteLength cs := by
  obtain ⟨before, after, rfl, rfl⟩ := exists_append_of_isBoundary h
  rw [byteLength_append]
  exact Nat.le_add_right _ _

/-! ## Slices -/

/-- The part of a text between two byte offsets. -/
def sliceChecked (start stop : Nat) (cs : List Char) : Checked (List Char) :=
  if start ≤ stop ∧ isBoundary start cs ∧ isBoundary stop cs then .ok (slice start stop cs)
  else .error .slice

theorem sliceChecked_eq {start stop : Nat} {cs : List Char} (hle : start ≤ stop)
    (hstart : isBoundary start cs = true) (hstop : isBoundary stop cs = true) :
    sliceChecked start stop cs = .ok (slice start stop cs) :=
  if_pos ⟨hle, hstart, hstop⟩

theorem sliceChecked_of_not_isBoundary {start : Nat} {cs : List Char}
    (h : isBoundary start cs = false) (stop : Nat) : sliceChecked start stop cs = .error .slice :=
  if_neg fun hbounds => by simp [h] at hbounds

theorem stopsOnlyWith_sliceChecked (start stop : Nat) (cs : List Char) :
    (sliceChecked start stop cs).StopsOnlyWith .slice := by
  intro other h
  unfold sliceChecked at h
  split at h
  · cases h
  · exact (Except.error.inj h).symm

/-- The middle one of three parts is cut out at the places where it begins and ends. -/
theorem sliceChecked_middle (before part after : List Char) :
    sliceChecked (byteLength before) (byteLength before + byteLength part)
      (before ++ (part ++ after)) = .ok part := by
  have hstop : isBoundary (byteLength before + byteLength part) (before ++ (part ++ after)) = true := by
    rw [isBoundary_add_append, isBoundary_append]
  rw [sliceChecked_eq (Nat.le_add_right _ _) (isBoundary_append _ _) hstop, slice_middle]

/-- A leading part. -/
theorem sliceChecked_front (part after : List Char) :
    sliceChecked 0 (byteLength part) (part ++ after) = .ok part := by
  simpa using sliceChecked_middle [] part after

/-- All behind a leading part. -/
theorem sliceChecked_back (before part : List Char) :
    sliceChecked (byteLength before) (byteLength (before ++ part)) (before ++ part) = .ok part := by
  simpa using sliceChecked_middle before part []

/-! ## The last occurrence of a character -/

/-- The byte offset of the last occurrence of a character. -/
def lastIndex? (c : Char) : List Char → Option Nat
  | [] => none
  | d :: cs =>
    match lastIndex? c cs with
    | some index => some (d.utf8Size + index)
    | none => if d = c then some 0 else none

theorem lastIndex?_of_notMem {c : Char} {cs : List Char} (h : c ∉ cs) : lastIndex? c cs = none := by
  induction cs with
  | nil => rfl
  | cons d cs ih =>
    obtain ⟨hne, hmore⟩ := List.ne_and_not_mem_of_not_mem_cons h
    rw [lastIndex?, ih hmore]
    exact if_neg (Ne.symm hne)

/-- The last occurrence is the one that no other follows. -/
theorem lastIndex?_append_cons {c : Char} (front : List Char) {back : List Char} (h : c ∉ back) :
    lastIndex? c (front ++ c :: back) = some (byteLength front) := by
  induction front with
  | nil =>
    rw [List.nil_append, lastIndex?, lastIndex?_of_notMem h]
    exact if_pos rfl
  | cons d front ih => rw [List.cons_append, lastIndex?, ih, byteLength_cons]

/-! ## Searching ascending numbers -/

/-- What a search in an ascending list finds out. -/
inductive Search
  /-- The key stands at this index. -/
  | found (index : Nat)
  /-- The key is not there, and would have to be put in at this index. -/
  | absent (index : Nat)
deriving DecidableEq, Repr

/-- The place of a key in an ascending list. -/
def search (key : Nat) (keys : List Nat) : Search :=
  let index := (keys.takeWhile (· < key)).length
  if keys[index]? = some key then .found index else .absent index

/-- Either the last number that is not above the key is the key, or the key would have to stand right
behind it. -/
theorem search_append {key last : Nat} {xs ys : List Nat} (hxs : ∀ x ∈ xs, x < key)
    (hlast : last ≤ key) (hys : ∀ y ∈ ys, key < y) :
    search key (xs ++ last :: ys) =
      if last = key then .found xs.length else .absent (xs.length + 1) := by
  have hfront : (xs ++ last :: ys).takeWhile (· < key) =
      xs ++ (last :: ys).takeWhile (· < key) :=
    List.takeWhile_append_of_pos fun x hx => decide_eq_true (hxs x hx)
  -- All of `xs` is passed over, and so is the last number unless it is the key itself.
  rw [search, hfront]
  by_cases heq : last = key
  · simp [heq]
  · have hlt : last < key := by omega
    have hnone : ys.takeWhile (· < key) = [] := by
      cases ys with
      | nil => rfl
      | cons y ys => simp [Nat.le_of_lt (hys y (by simp))]
    have hnext : (xs ++ last :: ys)[xs.length + 1]? = ys[0]? := by
      rw [List.getElem?_append_right (Nat.le_add_right _ 1), Nat.add_sub_cancel_left]
      rfl
    -- Nothing behind the last number is the key either.
    have hne : ys[0]? ≠ some key := by
      intro h
      exact Nat.lt_irrefl _ (hys key (List.mem_of_getElem? h))
    simp [hlt, hnone, heq, hnext, hne]

/-- The index of the last number of an ascending list that is not above the key. -/
def indexChecked (key : Nat) (keys : List Nat) : Checked Nat :=
  match search key keys with
  | .found index => .ok index
  | .absent next => Checked.sub next 1

theorem indexChecked_append {key last : Nat} {xs ys : List Nat} (hxs : ∀ x ∈ xs, x < key)
    (hlast : last ≤ key) (hys : ∀ y ∈ ys, key < y) :
    indexChecked key (xs ++ last :: ys) = .ok xs.length := by
  rw [indexChecked, search_append hxs hlast hys]
  split
  · next index hindex =>
    split at hindex
    · obtain rfl := Search.found.inj hindex
      rfl
    · cases hindex
  · next next hnext =>
    split at hnext
    · cases hnext
    · -- Something stands in front of where the key would have to be put in.
      obtain rfl := Search.absent.inj hnext
      exact Checked.sub_eq (Nat.le_add_left 1 _)

/-! ## The table of line starts -/

/-- The offsets just behind the line feeds of bytes that begin at `position`. -/
def lineStartsFrom (position : Nat) : List UInt8 → List Nat
  | [] => []
  | byte :: later =>
    if byte = 0x0A then (position + 1) :: lineStartsFrom (position + 1) later
    else lineStartsFrom (position + 1) later

/-- The offsets at which the lines of a text start. -/
def lineStarts (cs : List Char) : List Nat :=
  0 :: lineStartsFrom 0 (bytes cs)

theorem lineStartsFrom_append (position : Nat) (xs ys : List UInt8) :
    lineStartsFrom position (xs ++ ys) =
      lineStartsFrom position xs ++ lineStartsFrom (position + xs.length) ys := by
  induction xs generalizing position with
  | nil => rfl
  | cons x xs ih =>
    rw [List.cons_append, lineStartsFrom, lineStartsFrom, ih, List.length_cons, Nat.add_assoc,
      Nat.add_comm 1]
    split <;> rfl

/-- Every line starts behind the position from which on it is looked for. -/
theorem lt_of_mem_lineStartsFrom {position start : Nat} {xs : List UInt8}
    (h : start ∈ lineStartsFrom position xs) : position < start := by
  induction xs generalizing position with
  | nil => cases h
  | cons x xs ih =>
    rw [lineStartsFrom] at h
    split at h
    · rcases List.mem_cons.1 h with rfl | h
      · exact Nat.lt_succ_self _
      · exact Nat.lt_of_succ_lt (ih h)
    · exact Nat.lt_of_succ_lt (ih h)

/-- The table of line starts is ascending, as the search in it wants it. -/
theorem pairwise_lineStarts (cs : List Char) : (lineStarts cs).Pairwise (· < ·) := by
  refine List.pairwise_cons.2 ⟨fun start => lt_of_mem_lineStartsFrom, ?_⟩
  generalize bytes cs = xs, 0 = position
  induction xs generalizing position with
  | nil => exact List.Pairwise.nil
  | cons x xs ih =>
    rw [lineStartsFrom]
    split
    · exact List.pairwise_cons.2 ⟨fun start => lt_of_mem_lineStartsFrom, ih _⟩
    · exact ih _

theorem lineStartsFrom_eq_nil {position : Nat} {xs : List UInt8} (h : ∀ x ∈ xs, x ≠ 0x0A) :
    lineStartsFrom position xs = [] := by
  induction xs generalizing position with
  | nil => rfl
  | cons x xs ih =>
    rw [lineStartsFrom, if_neg (h x (by simp)), ih fun y hy => h y (by simp [hy])]

/-- No character but the line feed has its byte in the encoding. -/
theorem ne_lineFeed_of_mem_utf8EncodeChar {c : Char} (hc : c ≠ '\n') :
    ∀ x ∈ String.utf8EncodeChar c, x ≠ 0x0A := by
  have hbyte {number : Nat} (hlt : number < 256) (hne : number ≠ 10) :
      UInt8.ofNat number ≠ 0x0A := by
    intro h
    have hvalue := congrArg UInt8.toNat h
    simp at hvalue
    omega
  have htrailing (count : Nat) : ∀ x ∈ trailing c.toNat count, x ≠ 0x0A := by
    induction count with
    | zero => simp [trailing]
    | succ count ih =>
      intro x hx
      rcases List.mem_cons.1 hx with rfl | hx
      · exact hbyte (by omega) (by omega)
      · exact ih x hx
  have hcode : c.toNat ≠ 10 := fun h => hc (Char.toNat_inj.1 h)
  obtain ⟨count, lead, hencode, hform⟩ := utf8EncodeChar_cases c
  rw [hencode]
  intro x hx
  rcases List.mem_cons.1 hx with rfl | hx
  · -- The first byte is the character itself or has its highest bit set.
    rcases hform with ⟨rfl, rfl, _⟩ | ⟨rfl, rfl, _⟩ | ⟨rfl, rfl, _⟩ | ⟨rfl, rfl, _⟩ <;>
      exact hbyte (by omega) (by omega)
  · exact htrailing count x hx

theorem lineStartsFrom_utf8EncodeChar (position : Nat) (c : Char) :
    lineStartsFrom position (String.utf8EncodeChar c) = if c = '\n' then [position + 1] else [] := by
  split
  · next hc =>
    rw [hc]
    rfl
  · next hc => exact lineStartsFrom_eq_nil (ne_lineFeed_of_mem_utf8EncodeChar hc)

/-- The last line of a text: it starts where the table says last, its number is the number of
entries, and its length leads to the place behind the text. -/
theorem exists_lineStarts (cs : List Char) :
    ∃ front line starts, cs = front ++ line ∧ lineStarts cs = starts ++ [byteLength front] ∧
      (∀ start ∈ starts, start < byteLength front) ∧
      Location.first.behind cs = ⟨starts.length + 1, line.length + 1⟩ := by
  -- The induction is from behind, because a character at the end changes only the last line.
  induction cs using List.reverseRecOn with
  | nil => exact ⟨[], [], [], rfl, rfl, by simp, rfl⟩
  | append_singleton cs c ih =>
    obtain ⟨front, line, starts, hsplit, hstarts, hbefore, hbehind⟩ := ih
    have htable : lineStarts (cs ++ [c]) =
        lineStarts cs ++ if c = '\n' then [byteLength cs + 1] else [] := by
      have hbytes : bytes [c] = String.utf8EncodeChar c := List.append_nil _
      rw [lineStarts, bytes_append, lineStartsFrom_append, length_bytes, lineStarts,
        List.cons_append, ← lineStartsFrom_utf8EncodeChar, hbytes, Nat.zero_add]
    have hnext : Location.first.behind (cs ++ [c]) = (Location.first.behind cs).next c :=
      List.foldl_append
    rw [htable, hnext, hbehind]
    by_cases hc : c = '\n'
    · -- A line feed ends the line, and the next line is empty so far.
      refine ⟨cs ++ [c], [], starts ++ [byteLength front], (List.append_nil _).symm, ?_, ?_, ?_⟩
      · rw [if_pos hc, hstarts, byteLength_append, hc]
        rfl
      · have hlt : byteLength front < byteLength (cs ++ [c]) := by
          rw [hsplit, byteLength_append, byteLength_append, byteLength_cons]
          have := c.utf8Size_pos
          omega
        intro start hstart
        rcases List.mem_append.1 hstart with hstart | hstart
        · exact Nat.lt_trans (hbefore start hstart) hlt
        · rw [List.mem_singleton.1 hstart]
          exact hlt
      · rw [Location.next, if_pos hc, List.length_append]
        rfl
    · refine ⟨front, line ++ [c], starts, ?_, ?_, hbefore, ?_⟩
      · rw [hsplit, List.append_assoc]
      · rw [if_neg hc, List.append_nil, hstarts]
      · rw [Location.next, if_neg hc, List.length_append]
        rfl

/-! ## Lines and columns -/

/-- The last boundary that is not behind an offset, by steps of one byte down from the offset. -/
def floorChecked (cs : List Char) : (offset : Nat) → Checked Nat
  | 0 => if isBoundary 0 cs then .ok 0 else .error .subtraction
  | offset + 1 => if isBoundary (offset + 1) cs then .ok (offset + 1) else floorChecked cs offset

/-- The place of a byte offset, looked up in the table of line starts. -/
def locateChecked (cs : List Char) (offset : Nat) : Checked Location := do
  let offset := min offset (byteLength cs)
  let line ← indexChecked offset (lineStarts cs)
  let start ← Checked.get (lineStarts cs) line
  let stop ← floorChecked cs offset
  let part ← sliceChecked start stop cs
  return ⟨line + 1, part.length + 1⟩

/-- An offset inside of a text leads to a boundary, or into the character behind one. -/
theorem exists_boundary_before {offset : Nat} {cs : List Char} (h : offset ≤ byteLength cs) :
    ∃ before after inside, cs = before ++ after ∧ offset = byteLength before + inside ∧
      (inside = 0 ∨ ∃ c rest, after = c :: rest ∧ inside < c.utf8Size) := by
  induction cs generalizing offset with
  | nil => exact ⟨[], [], 0, rfl, by simpa using h, Or.inl rfl⟩
  | cons c cs ih =>
    by_cases hlt : offset < c.utf8Size
    · exact ⟨[], c :: cs, offset, rfl, by simp, Or.inr ⟨c, cs, rfl, hlt⟩⟩
    · rw [byteLength_cons] at h
      have hrest : offset - c.utf8Size ≤ byteLength cs := by omega
      obtain ⟨before, after, inside, rfl, hoffset, hinside⟩ := ih hrest
      refine ⟨c :: before, after, inside, rfl, ?_, hinside⟩
      rw [byteLength_cons, Nat.add_assoc, ← hoffset, Nat.add_sub_of_le (Nat.not_lt.1 hlt)]

section Floor

variable {before after : List Char} {inside : Nat}
  (h : inside = 0 ∨ ∃ c rest, after = c :: rest ∧ inside < c.utf8Size)
include h

/-- From inside of a character, the steps lead down to its start, and no further. -/
theorem floorChecked_eq :
    floorChecked (before ++ after) (byteLength before + inside) = .ok (byteLength before) := by
  induction inside with
  | zero =>
    have hboundary := isBoundary_append before after
    rw [Nat.add_zero]
    cases hlength : byteLength before with
    | zero => rw [floorChecked, isBoundary, if_pos rfl]
    | succ length => rw [floorChecked, ← hlength, if_pos hboundary]
  | succ inside ih =>
    -- Still inside of the character, which is no boundary, so one more byte down.
    obtain ⟨c, rest, rfl, hlt⟩ := h.resolve_left (Nat.succ_ne_zero _)
    have hnot : isBoundary (inside + 1) (c :: rest) = false := by
      rw [isBoundary, decide_eq_false (Nat.not_le.2 hlt), Bool.false_and]
    rw [← Nat.add_assoc, floorChecked, Nat.add_assoc, isBoundary_add_append, hnot,
      if_neg Bool.false_ne_true]
    exact ih (Or.inr ⟨c, rest, rfl, Nat.lt_of_succ_lt hlt⟩)

/-- Inside of a character is the place of its start. -/
theorem Location.walk_inside (place : Location) :
    place.walk (byteLength before + inside) (before ++ after) = place.behind before := by
  induction before generalizing place with
  | nil =>
    rcases h with rfl | ⟨c, rest, rfl, hlt⟩
    · exact walk_append place [] after
    · rw [byteLength_nil, Nat.zero_add, List.nil_append, walk, if_pos hlt]
      rfl
  | cons c before ih =>
    have hnot : ¬c.utf8Size + byteLength before + inside < c.utf8Size := by omega
    have hrest : c.utf8Size + byteLength before + inside - c.utf8Size =
        byteLength before + inside := by omega
    rw [byteLength_cons, List.cons_append, walk, if_neg hnot, hrest, ih]
    rfl

end Floor

/-- An offset behind the text leads to its end. -/
theorem Location.walk_min (place : Location) (offset : Nat) (cs : List Char) :
    place.walk (min offset (byteLength cs)) cs = place.walk offset cs := by
  induction cs generalizing place offset with
  | nil => rfl
  | cons c cs ih =>
    have hpositive := c.utf8Size_pos
    rw [walk, walk, byteLength_cons]
    by_cases hlt : offset < c.utf8Size
    · rw [if_pos hlt, if_pos (by omega)]
    · have hrest : min offset (c.utf8Size + byteLength cs) - c.utf8Size =
          min (offset - c.utf8Size) (byteLength cs) := by omega
      rw [if_neg hlt, if_neg (by omega), hrest, ih]

/-- The line of an offset starts at the last entry of the table that is not behind the offset. -/
theorem lineStarts_append {front line : List Char} {starts : List Nat} (after : List Char)
    (h : lineStarts (front ++ line) = starts ++ [byteLength front]) :
    lineStarts (front ++ (line ++ after)) =
      starts ++ byteLength front :: lineStartsFrom (byteLength (front ++ line)) (bytes after) := by
  have hfront : 0 :: lineStartsFrom 0 (bytes (front ++ line)) = starts ++ [byteLength front] := h
  rw [← List.append_assoc, lineStarts, bytes_append, lineStartsFrom_append, ← List.cons_append,
    hfront, length_bytes, Nat.zero_add, List.append_assoc, List.singleton_append]

/-- Behind a boundary, no line starts before the character there is passed. -/
theorem lt_of_mem_lineStartsFrom_bytes {position inside start : Nat} {after : List Char}
    (h : inside = 0 ∨ ∃ c rest, after = c :: rest ∧ inside < c.utf8Size)
    (hstart : start ∈ lineStartsFrom position (bytes after)) : position + inside < start := by
  rcases h with rfl | ⟨c, rest, rfl, hlt⟩
  · exact lt_of_mem_lineStartsFrom hstart
  · rw [bytes_cons, lineStartsFrom_append, lineStartsFrom_utf8EncodeChar,
      String.length_utf8EncodeChar] at hstart
    rcases List.mem_append.1 hstart with hstart | hstart
    · -- The only character that ends a line has one byte.
      split at hstart
      · next hc =>
        rw [List.mem_singleton.1 hstart]
        rw [hc] at hlt
        exact Nat.add_lt_add_left hlt position
      · cases hstart
    · exact Nat.lt_trans (Nat.add_lt_add_left hlt position) (lt_of_mem_lineStartsFrom hstart)

/-- The place of every offset is found, and no step on the way to it stops with a fault. -/
theorem locateChecked_eq (cs : List Char) (offset : Nat) :
    locateChecked cs offset = .ok (locate cs offset) := by
  -- The text up to the last boundary not behind the offset ends with the line that is looked for.
  obtain ⟨before, after, inside, rfl, hoffset, hinside⟩ :=
    exists_boundary_before (Nat.min_le_right offset (byteLength cs))
  obtain ⟨front, line, starts, rfl, hstarts, hearlier, hbehind⟩ := exists_lineStarts before
  have hplace : locate (front ++ line ++ after) offset = ⟨starts.length + 1, line.length + 1⟩ := by
    rw [locate, ← Location.walk_min, hoffset, Location.walk_inside hinside, hbehind]
  have htable := lineStarts_append after hstarts
  rw [← List.append_assoc] at htable
  have hindex : indexChecked (byteLength (front ++ line) + inside)
      (lineStarts (front ++ line ++ after)) = .ok starts.length := by
    rw [htable]
    have hfront : byteLength front ≤ byteLength (front ++ line) + inside := by
      rw [byteLength_append]
      omega
    refine indexChecked_append ?_ hfront fun start => lt_of_mem_lineStartsFrom_bytes hinside
    exact fun start hstart => Nat.lt_of_lt_of_le (hearlier start hstart) hfront
  have hget : Checked.get (lineStarts (front ++ line ++ after)) starts.length =
      .ok (byteLength front) := by
    rw [htable, Checked.get_append_cons]
  have hpart : sliceChecked (byteLength front) (byteLength (front ++ line)) (front ++ line ++ after) =
      .ok line := by
    rw [byteLength_append, List.append_assoc, sliceChecked_middle]
  rw [locateChecked, hoffset, hindex, Checked.ok_bind, hget, Checked.ok_bind, floorChecked_eq hinside,
    Checked.ok_bind, hpart, Checked.ok_bind, hplace]
  rfl

end Text
end DocAudit

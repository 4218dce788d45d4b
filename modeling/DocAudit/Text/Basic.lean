/-!
# Text and byte offsets

A text is a list of characters, and a place in it is named by the number of UTF-8 bytes in front of
it. A *boundary* is an offset between two characters. Every cut below is total: a bound that falls
inside a character is moved to the end of that character, so on boundaries a slice is exactly the
text between them, and whether an offset is a boundary is asked separately.
-/

namespace DocAudit.Text

/-- The number of bytes a text takes in UTF-8. -/
def byteLength : List Char → Nat
  | [] => 0
  | c :: cs => c.utf8Size + byteLength cs

/-- The text from byte `offset` on. -/
def dropBytes : Nat → List Char → List Char
  | 0, cs => cs
  | _ + 1, [] => []
  | offset + 1, c :: cs => dropBytes (offset + 1 - c.utf8Size) cs

/-- The text in front of byte `offset`. -/
def takeBytes : Nat → List Char → List Char
  | 0, _ => []
  | _ + 1, [] => []
  | offset + 1, c :: cs => c :: takeBytes (offset + 1 - c.utf8Size) cs

/-- The text between two byte offsets; empty when they are in the wrong order. -/
def slice (start stop : Nat) (cs : List Char) : List Char :=
  takeBytes (stop - start) (dropBytes start cs)

/-- Whether `offset` lies between two characters, or at an end of the text. -/
def isBoundary : Nat → List Char → Bool
  | 0, _ => true
  | _ + 1, [] => false
  | offset + 1, c :: cs => c.utf8Size ≤ offset + 1 && isBoundary (offset + 1 - c.utf8Size) cs

/-- The text after `head`, when the text begins with it. -/
def dropHead? : (head : List Char) → List Char → Option (List Char)
  | [], cs => some cs
  | _ :: _, [] => none
  | h :: hs, c :: cs => if h = c then dropHead? hs cs else none

/-- The text in front of `tail`, when the text ends with it. -/
def dropTail? (tail cs : List Char) : Option (List Char) :=
  (dropHead? tail.reverse cs.reverse).map List.reverse

/-- The pieces of a text between the occurrences of a character; at least one, possibly empty. -/
def splitAt (separator : Char) : List Char → List (List Char)
  | [] => [[]]
  | c :: cs =>
    if c = separator then [] :: splitAt separator cs
    else
      match splitAt separator cs with
      | [] => [[c]]
      | piece :: pieces => (c :: piece) :: pieces

/-- The pieces joined by a separator. -/
def joinWith (separator : Char) : List (List Char) → List Char
  | [] => []
  | [piece] => piece
  | piece :: pieces => piece ++ separator :: joinWith separator pieces

@[simp]
theorem byteLength_nil : byteLength [] = 0 := rfl

@[simp]
theorem byteLength_cons (c : Char) (cs : List Char) :
    byteLength (c :: cs) = c.utf8Size + byteLength cs := rfl

@[simp]
theorem byteLength_append (xs ys : List Char) :
    byteLength (xs ++ ys) = byteLength xs + byteLength ys := by
  induction xs with
  | nil => simp
  | cons c cs ih => simp [ih, Nat.add_assoc]

/-- Dropping a whole text leaves what follows it. -/
@[simp]
theorem dropBytes_append (xs ys : List Char) : dropBytes (byteLength xs) (xs ++ ys) = ys := by
  induction xs with
  | nil => simp [dropBytes]
  | cons c cs ih =>
    have positive := c.utf8Size_pos
    obtain ⟨n, hn⟩ : ∃ n, byteLength (c :: cs) = n + 1 :=
      ⟨byteLength (c :: cs) - 1, by simp only [byteLength_cons]; omega⟩
    rw [hn, List.cons_append, dropBytes, ← hn, byteLength_cons, Nat.add_sub_cancel_left, ih]

/-- Taking the length of a text takes that text. -/
@[simp]
theorem takeBytes_append (xs ys : List Char) : takeBytes (byteLength xs) (xs ++ ys) = xs := by
  induction xs with
  | nil => simp [takeBytes]
  | cons c cs ih =>
    have positive := c.utf8Size_pos
    obtain ⟨n, hn⟩ : ∃ n, byteLength (c :: cs) = n + 1 :=
      ⟨byteLength (c :: cs) - 1, by simp only [byteLength_cons]; omega⟩
    rw [hn, List.cons_append, takeBytes, ← hn, byteLength_cons, Nat.add_sub_cancel_left, ih]

/-- The slice at the place of a middle part is that part. -/
theorem slice_middle (before part after : List Char) :
    slice (byteLength before) (byteLength before + byteLength part) (before ++ (part ++ after)) =
      part := by
  simp [slice]

/-- The end of a leading part is a boundary. -/
theorem isBoundary_append (xs ys : List Char) : isBoundary (byteLength xs) (xs ++ ys) = true := by
  induction xs with
  | nil => simp [isBoundary]
  | cons c cs ih =>
    have positive := c.utf8Size_pos
    obtain ⟨n, hn⟩ : ∃ n, byteLength (c :: cs) = n + 1 :=
      ⟨byteLength (c :: cs) - 1, by simp only [byteLength_cons]; omega⟩
    rw [hn, List.cons_append, isBoundary, ← hn, byteLength_cons, Nat.add_sub_cancel_left, ih]
    simp

/-- A text begins with `head` exactly when it is `head` followed by the rest. -/
theorem dropHead?_eq_some_iff {head cs rest : List Char} :
    dropHead? head cs = some rest ↔ cs = head ++ rest := by
  induction head generalizing cs with
  | nil => simp [dropHead?, eq_comm]
  | cons h hs ih =>
    cases cs with
    | nil => simp [dropHead?]
    | cons c cs =>
      by_cases hc : h = c
      · simp [dropHead?, hc, ih]
      · simp [dropHead?, hc, Ne.symm hc]

end DocAudit.Text

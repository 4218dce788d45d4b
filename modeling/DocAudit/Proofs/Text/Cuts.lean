import DocAudit.Text.Basic
import DocAudit.Text.Blank

/-!
# Texts in pieces

What remains of a text when it is cut at a boundary, trimmed or split stands in the text at a known
place.

* `bytes`: a text as bytes, as many as `byteLength` counts;
* `exists_around_slice`: a slice between boundaries is a part of the text;
* `exists_dropEndWhile_append`, `joinWith_splitAt`: what trimming and splitting take away;
* `dropEndWhile_append`, `splitAt_append_cons`: where they stop.
-/

namespace DocAudit.Text

/-! ## Bytes -/

/-- The bytes of a text. -/
def bytes (cs : List Char) : List UInt8 :=
  cs.flatMap String.utf8EncodeChar

@[simp]
theorem bytes_append (xs ys : List Char) : bytes (xs ++ ys) = bytes xs ++ bytes ys :=
  List.flatMap_append

@[simp]
theorem length_bytes (cs : List Char) : (bytes cs).length = byteLength cs := by
  induction cs with
  | nil => rfl
  | cons c cs ih =>
    rw [bytes, List.flatMap_cons, List.length_append, String.length_utf8EncodeChar, byteLength_cons,
      ← ih, bytes]

/-- A byte of a part stands in the whole as far behind the place of the part. -/
theorem getElem?_bytes_middle (before : List Char) {part : List Char} (after : List Char)
    {offset : Nat} (h : offset < byteLength part) :
    (bytes (before ++ (part ++ after)))[byteLength before + offset]? = (bytes part)[offset]? := by
  rw [← length_bytes] at h
  rw [bytes_append, bytes_append, List.getElem?_append_right (by simp), length_bytes,
    Nat.add_sub_cancel_left, List.getElem?_append_left h]

/-! ## Slices -/

/-- Two cuts of a text at the same place give the same parts. -/
theorem append_inj_of_byteLength_eq {xs ys as bs : List Char} (h : xs ++ as = ys ++ bs)
    (hlength : byteLength xs = byteLength ys) : xs = ys ∧ as = bs := by
  have hfront : xs = ys := by
    rw [← takeBytes_append xs as, h, hlength, takeBytes_append]
  exact ⟨hfront, List.append_cancel_left (hfront ▸ h)⟩

/-- A boundary parts the text. -/
theorem exists_append_of_isBoundary {offset : Nat} {cs : List Char}
    (h : isBoundary offset cs = true) :
    ∃ before after, cs = before ++ after ∧ byteLength before = offset := by
  induction cs generalizing offset with
  | nil =>
    cases offset with
    | zero => exact ⟨[], [], rfl, rfl⟩
    | succ offset => cases h
  | cons c cs ih =>
    cases offset with
    | zero => exact ⟨[], c :: cs, rfl, rfl⟩
    | succ offset =>
      rw [isBoundary, Bool.and_eq_true, decide_eq_true_eq] at h
      obtain ⟨before, after, rfl, hlength⟩ := ih h.2
      refine ⟨c :: before, after, rfl, ?_⟩
      rw [byteLength_cons, hlength]
      omega

/-- The boundaries behind a leading part are those of the rest. -/
theorem isBoundary_add_append (before rest : List Char) (offset : Nat) :
    isBoundary (byteLength before + offset) (before ++ rest) = isBoundary offset rest := by
  induction before with
  | nil => simp
  | cons c cs ih =>
    have positive := c.utf8Size_pos
    obtain ⟨n, hn⟩ : ∃ n, byteLength (c :: cs) + offset = n + 1 :=
      ⟨byteLength (c :: cs) + offset - 1, by simp only [byteLength_cons]; omega⟩
    have hrest : n + 1 - c.utf8Size = byteLength cs + offset := by
      rw [← hn, byteLength_cons]
      omega
    have hle : c.utf8Size ≤ n + 1 := by
      rw [← hn, byteLength_cons]
      omega
    rw [hn, List.cons_append, isBoundary, hrest, ih]
    simp [hle]

/-- A slice between two boundaries is the part of the text between them. -/
theorem exists_around_slice {start stop : Nat} {cs : List Char} (hle : start ≤ stop)
    (hstart : isBoundary start cs = true) (hstop : isBoundary stop cs = true) :
    ∃ before after, cs = before ++ (slice start stop cs ++ after) ∧ byteLength before = start ∧
      start + byteLength (slice start stop cs) = stop := by
  obtain ⟨before, rest, rfl, rfl⟩ := exists_append_of_isBoundary hstart
  obtain ⟨length, rfl⟩ := Nat.exists_eq_add_of_le hle
  rw [isBoundary_add_append] at hstop
  obtain ⟨part, after, rfl, rfl⟩ := exists_append_of_isBoundary hstop
  rw [slice_middle]
  exact ⟨before, after, rfl, rfl, rfl⟩

/-! ## Trimming and splitting -/

/-- Trimming takes away the end of a text only. -/
theorem exists_dropEndWhile_append (inClass : Char → Bool) (cs : List Char) :
    ∃ tail, cs = dropEndWhile inClass cs ++ tail := by
  refine ⟨(cs.reverse.takeWhile inClass).reverse, ?_⟩
  rw [dropEndWhile, ← List.reverse_append, List.takeWhile_append_dropWhile, List.reverse_reverse]

/-- Trimming takes away all of an end of the class behind a text that has none of the class. -/
theorem dropEndWhile_append {inClass : Char → Bool} {front tail : List Char}
    (hfront : ∀ c ∈ front, inClass c = false) (htail : ∀ c ∈ tail, inClass c = true) :
    dropEndWhile inClass (front ++ tail) = front := by
  rw [dropEndWhile, List.reverse_append,
    List.dropWhile_append_of_pos (fun c hc => htail c (List.mem_reverse.1 hc))]
  -- The last character in front of the end stops the trimming.
  have hkept : front.reverse.dropWhile inClass = front.reverse := by
    cases hreverse : front.reverse with
    | nil => rfl
    | cons last more =>
      have hlast : last ∈ front := by
        rw [← List.mem_reverse, hreverse]
        exact List.mem_cons_self
      exact List.dropWhile_cons_of_neg (Bool.eq_false_iff.1 (hfront last hlast))
  rw [hkept, List.reverse_reverse]

/-- In front of `tail` stands what is in front of it. -/
theorem dropTail?_append (front tail : List Char) : dropTail? tail (front ++ tail) = some front := by
  have hhead : dropHead? tail.reverse (front ++ tail).reverse = some front.reverse :=
    dropHead?_eq_some_iff.2 List.reverse_append
  rw [dropTail?, hhead, Option.map_some, List.reverse_reverse]

/-- A text that ends with `tail` is what is left in front of it, and `tail`. -/
theorem eq_append_of_dropTail? {tail cs rest : List Char} (h : dropTail? tail cs = some rest) :
    cs = rest ++ tail := by
  obtain ⟨front, hfront, rfl⟩ := Option.map_eq_some_iff.1 h
  rw [dropHead?_eq_some_iff] at hfront
  rw [← List.reverse_reverse cs, hfront, List.reverse_append, List.reverse_reverse]

theorem splitAt_ne_nil (separator : Char) (cs : List Char) : splitAt separator cs ≠ [] := by
  cases cs with
  | nil => simp [splitAt]
  | cons c cs =>
    rw [splitAt]
    split
    · simp
    · split <;> simp

/-- A text without the separator is the first piece in front of one. -/
theorem splitAt_append_cons {separator : Char} {piece : List Char} (h : separator ∉ piece)
    (rest : List Char) :
    splitAt separator (piece ++ separator :: rest) = piece :: splitAt separator rest := by
  induction piece with
  | nil => rw [List.nil_append, splitAt, if_pos rfl]
  | cons c piece ih =>
    obtain ⟨hne, hmore⟩ := List.ne_and_not_mem_of_not_mem_cons h
    rw [List.cons_append, splitAt, if_neg (Ne.symm hne), ih hmore]

/-- The first of joined pieces stands in front, each of the others behind a separator. -/
theorem joinWith_cons (separator : Char) (piece : List Char) (pieces : List (List Char)) :
    joinWith separator (piece :: pieces) =
      piece ++ pieces.flatMap fun later => separator :: later := by
  induction pieces generalizing piece with
  | nil => rw [joinWith, List.flatMap_nil, List.append_nil]
  | cons next pieces ih =>
    show piece ++ separator :: joinWith separator (next :: pieces) = _
    rw [ih, List.flatMap_cons, List.cons_append]

/-- Pieces between two empty ones are joined between two separators. -/
theorem joinWith_between_nil (separator : Char) {pieces : List (List Char)} (hne : pieces ≠ []) :
    joinWith separator ([] :: (pieces ++ [[]])) =
      separator :: (joinWith separator pieces ++ [separator]) := by
  obtain ⟨piece, more, rfl⟩ := List.exists_cons_of_ne_nil hne
  rw [joinWith_cons, joinWith_cons, List.flatMap_append, List.flatMap_cons]
  rfl

/-- The pieces of a text joined again are the text. -/
theorem joinWith_splitAt (separator : Char) (cs : List Char) :
    joinWith separator (splitAt separator cs) = cs := by
  induction cs with
  | nil => rfl
  | cons c cs ih =>
    rw [splitAt]
    split
    · next hc =>
      rw [joinWith_cons, List.nil_append, hc]
      cases hpieces : splitAt separator cs with
      | nil => exact absurd hpieces (splitAt_ne_nil separator cs)
      | cons piece pieces =>
        rw [List.flatMap_cons, List.cons_append, ← joinWith_cons, ← hpieces, ih]
    · split
      · next hpieces => exact absurd hpieces (splitAt_ne_nil separator cs)
      · next piece pieces hpieces =>
        rw [joinWith_cons, List.cons_append, ← joinWith_cons, ← hpieces, ih]

end DocAudit.Text

import DocAudit.Text.Blank
import Mathlib.Data.List.DropRight

/-!
# Texts without the blanks around them

Trimming a text takes the blanks in front of it, and then those behind what is left. What comes out can
be told without these two passes: nothing but blanks is gone, and all of those are.

* `IsTrimmed`, `TrimsTo`: texts without blanks around them, and what they are left over from;
* `trimsTo_trim`: trimming takes the blanks away, and nothing else;
* `trim_eq_nil_iff`: nothing is left over of blanks, and of nothing else.
-/

namespace DocAudit.Text

variable {cs shown : List Char}

/-- The text neither begins nor ends with a blank. -/
structure IsTrimmed (cs : List Char) : Prop where
  /-- The first character is no blank. -/
  head : ∀ hne : cs ≠ [], isBlankChar (cs.head hne) = false
  /-- The last character is no blank. -/
  last : ∀ hne : cs ≠ [], isBlankChar (cs.getLast hne) = false

/-- The second text is the first without the blanks around it. -/
structure TrimsTo (cs shown : List Char) : Prop where
  /-- Only blanks are gone, in front of it and behind it. -/
  around : ∃ front back, cs = front ++ (shown ++ back) ∧ isBlank front = true ∧ isBlank back = true
  /-- All of these are gone. -/
  isTrimmed : IsTrimmed shown

theorem dropEndWhile_eq_rdropWhile (inClass : Char → Bool) (cs : List Char) :
    dropEndWhile inClass cs = cs.rdropWhile inClass :=
  rfl

theorem isTrimmed_trim (cs : List Char) : IsTrimmed (trim cs) where
  head hne := by
    -- What is dropped at the end leaves the first character.
    have hfront : trim cs <+: trimStart cs := List.rdropWhile_prefix isBlankChar _
    rw [hfront.head hne]
    exact List.head_dropWhile_not isBlankChar _
  last hne := Bool.eq_false_iff.2 (List.rdropWhile_last_not isBlankChar (trimStart cs) hne)

theorem trimsTo_trim (cs : List Char) : TrimsTo cs (trim cs) where
  around := by
    refine ⟨cs.takeWhile isBlankChar, (trimStart cs).rtakeWhile isBlankChar, ?_, ?_, ?_⟩
    · rw [trim, trimEnd, dropEndWhile_eq_rdropWhile, List.rdropWhile_append_rtakeWhile, trimStart,
        List.takeWhile_append_dropWhile]
    · exact List.all_eq_true.2 fun c hc => List.mem_takeWhile_imp hc
    · exact List.all_eq_true.2 fun c hc => List.mem_rtakeWhile_imp hc
  isTrimmed := isTrimmed_trim cs

theorem IsTrimmed.trim_eq (h : IsTrimmed cs) : trim cs = cs := by
  have hstart : trimStart cs = cs := by
    refine List.dropWhile_eq_self_iff.2 fun hpositive => ?_
    rw [← List.head_eq_getElem (List.ne_nil_of_length_pos hpositive), h.head]
    exact Bool.false_ne_true
  rw [trim, hstart, trimEnd, dropEndWhile_eq_rdropWhile]
  exact List.rdropWhile_eq_self_iff.2 fun hne => Bool.eq_false_iff.1 (h.last hne)

theorem trim_subset (cs : List Char) : trim cs ⊆ cs :=
  fun _ hmem => (List.dropWhile_suffix isBlankChar).subset
    ((List.rdropWhile_prefix isBlankChar _).subset hmem)

/-- Nothing is left over where there is nothing but blanks. -/
theorem trim_eq_nil_iff : trim cs = [] ↔ isBlank cs = true := by
  constructor
  · intro h
    obtain ⟨front, back, hcs, hfront, hback⟩ := (trimsTo_trim cs).around
    rw [h, List.nil_append] at hcs
    rw [hcs, isBlank, List.all_append]
    exact Bool.and_eq_true_iff.2 ⟨hfront, hback⟩
  · intro h
    have hstart : trimStart cs = [] :=
      List.dropWhile_eq_nil_iff.2 fun c hc => List.all_eq_true.1 h c hc
    rw [trim, hstart]
    rfl

end DocAudit.Text

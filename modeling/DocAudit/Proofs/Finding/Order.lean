import DocAudit.Finding.Basic
import DocAudit.Proofs.Text.ByteOrder
import Mathlib.Data.List.Sort

/-!
# The order of reports

Findings are ordered by file, line, column and rule. Findings that are different may agree in all
four: they keep their order, since sorting is stable. A sorted report is therefore determined by the
findings of each place and rule, in the order in which they came.

* `ties`: the elements of a list that a comparison does not tell from a given one;
* `mergeSort_eq_mergeSort`: what sorting gives is determined by the ties;
* `Finding.NotAfter`: the order in terms of bytes and numbers.
-/

namespace DocAudit

open Text

/-! ## Stable sorting -/

section Sorting

variable {α : Type} (cmp : α → α → Ordering)

/-- The elements that a comparison does not tell from the given one, in their order. -/
def ties (a : α) (xs : List α) : List α :=
  xs.filter fun x => cmp a x == .eq

variable {cmp}

@[simp]
theorem mem_ties {a x : α} {xs : List α} : x ∈ ties cmp a xs ↔ x ∈ xs ∧ cmp a x = .eq := by
  simp [ties]

theorem ties_cons_of_eq {a x : α} (h : cmp a x = .eq) (xs : List α) :
    ties cmp a (x :: xs) = x :: ties cmp a xs :=
  List.filter_cons_of_pos (by simp [h])

theorem ties_cons_of_ne {a x : α} (h : cmp a x ≠ .eq) (xs : List α) :
    ties cmp a (x :: xs) = ties cmp a xs :=
  List.filter_cons_of_neg (by simp [h])

variable [Std.TransCmp cmp]

variable (cmp) in
/-- Of two elements one is not behind the other. -/
theorem isLE_total (a b : α) : ((cmp a b).isLE || (cmp b a).isLE) = true := by
  have hswap : cmp b a = (cmp a b).swap := Std.OrientedCmp.eq_swap
  rw [hswap]
  cases cmp a b <;> rfl

/-- Sorting keeps the order of ties. -/
theorem ties_mergeSort (a : α) (xs : List α) :
    ties cmp a (xs.mergeSort fun x y => (cmp x y).isLE) = ties cmp a xs := by
  have hsorted : (ties cmp a xs).Pairwise fun x y => (cmp x y).isLE = true := by
    apply List.pairwise_of_forall_mem_list
    intro x hx y hy
    rw [← Std.TransCmp.congr_left (mem_ties.1 hx).2, (mem_ties.1 hy).2]
    rfl
  have hsub : (ties cmp a xs).Sublist (xs.mergeSort fun x y => (cmp x y).isLE) :=
    List.sublist_mergeSort (fun _ _ _ => Std.TransCmp.isLE_trans) (isLE_total cmp) hsorted
      List.filter_sublist
  -- The ties stand in the sorted list in their order, and it has no more of them.
  have hties : (ties cmp a (ties cmp a xs)).Sublist
      (ties cmp a (xs.mergeSort fun x y => (cmp x y).isLE)) := hsub.filter _
  rw [ties, ties, List.filter_filter] at hties
  simp only [Bool.and_self] at hties
  exact (hties.eq_of_length ((List.mergeSort_perm xs _).filter _).length_eq.symm).symm

/-- The first element of a sorted list is not behind any that ties with one of the list. -/
theorem isLE_head_of_ties {x a : α} {xs : List α}
    (hsorted : (x :: xs).Pairwise fun x y => (cmp x y).isLE = true)
    (ha : ties cmp a (x :: xs) ≠ []) : (cmp x a).isLE = true := by
  obtain ⟨y, hy⟩ := List.exists_mem_of_ne_nil _ ha
  obtain ⟨hmem, heq⟩ := mem_ties.1 hy
  rw [Std.TransCmp.congr_right heq]
  rcases List.mem_cons.1 hmem with rfl | hmem
  · exact Std.ReflCmp.isLE_rfl
  · exact (List.pairwise_cons.1 hsorted).1 y hmem

/-- Two sorted lists with the same ties are the same. -/
theorem eq_of_ties_eq {xs ys : List α} (hxs : xs.Pairwise fun x y => (cmp x y).isLE = true)
    (hys : ys.Pairwise fun x y => (cmp x y).isLE = true)
    (h : ∀ a, ties cmp a xs = ties cmp a ys) : xs = ys := by
  induction xs generalizing ys with
  | nil =>
    rw [eq_comm, List.eq_nil_iff_forall_not_mem]
    intro y hy
    have hties : y ∈ ties cmp y ys := mem_ties.2 ⟨hy, Std.ReflCmp.compare_self⟩
    rw [← h] at hties
    cases hties
  | cons x xs ih =>
    have hx : ties cmp x (x :: xs) ≠ [] := by
      rw [ties_cons_of_eq Std.ReflCmp.compare_self]
      exact List.cons_ne_nil _ _
    cases ys with
    | nil => exact absurd (h x) hx
    | cons y ys =>
      have hy : ties cmp y (y :: ys) ≠ [] := by
        rw [ties_cons_of_eq Std.ReflCmp.compare_self]
        exact List.cons_ne_nil _ _
      -- Neither of the first elements is behind the other, so they tie.
      have hyx : cmp y x = .eq :=
        Std.OrientedCmp.isLE_antisymm (isLE_head_of_ties hys (h x ▸ hx))
          (isLE_head_of_ties hxs (h y ▸ hy))
      have hfirst := h y
      rw [ties_cons_of_eq hyx, ties_cons_of_eq Std.ReflCmp.compare_self] at hfirst
      obtain ⟨rfl, -⟩ := List.cons.inj hfirst
      congr 1
      apply ih hxs.of_cons hys.of_cons
      intro a
      by_cases ha : cmp a x = .eq
      · have hties := h a
        rw [ties_cons_of_eq ha, ties_cons_of_eq ha] at hties
        exact (List.cons.inj hties).2
      · have hties := h a
        rwa [ties_cons_of_ne ha, ties_cons_of_ne ha] at hties

/-- Lists with the same ties are the same once they are sorted. -/
theorem mergeSort_eq_mergeSort {xs ys : List α} (h : ∀ a, ties cmp a xs = ties cmp a ys) :
    (xs.mergeSort fun x y => (cmp x y).isLE) = ys.mergeSort fun x y => (cmp x y).isLE := by
  have hties (a : α) : ties cmp a (xs.mergeSort fun x y => (cmp x y).isLE) =
      ties cmp a (ys.mergeSort fun x y => (cmp x y).isLE) := by
    rw [ties_mergeSort, ties_mergeSort, h a]
  refine eq_of_ties_eq ?_ ?_ hties
  · exact List.pairwise_mergeSort (fun _ _ _ => Std.TransCmp.isLE_trans) (isLE_total cmp) xs
  · exact List.pairwise_mergeSort (fun _ _ _ => Std.TransCmp.isLE_trans) (isLE_total cmp) ys

end Sorting

/-! ## Findings -/

namespace Finding

instance : Std.TransCmp order :=
  inferInstanceAs (Std.TransCmp (compareLex
    (compareLex (compareOn Finding.path) (compareOn (Finding.location · |>.line)))
    (compareLex (compareOn (Finding.location · |>.column)) (compareOn Finding.ruleId))))

/-- Findings that the order does not tell apart have the same path and the same rule. -/
theorem eq_of_order_eq {a b : Finding} (h : order a b = .eq) :
    a.path = b.path ∧ a.ruleId = b.ruleId := by
  rw [order, Ordering.then_eq_eq, Ordering.then_eq_eq, Ordering.then_eq_eq] at h
  exact ⟨Std.LawfulEqCmp.eq_of_compare h.1.1, Std.LawfulEqCmp.eq_of_compare h.2.2⟩

/-- A finding is not behind another one in a report: its path comes first in the order of bytes, or
the paths agree and its line comes first, and so on with the column and, in the order of bytes, the
rule id. -/
def NotAfter (a b : Finding) : Prop :=
  bytes a.path.toList < bytes b.path.toList ∨ a.path = b.path ∧
    (a.location.line < b.location.line ∨ a.location.line = b.location.line ∧
      (a.location.column < b.location.column ∨ a.location.column = b.location.column ∧
        (bytes a.ruleId.toList < bytes b.ruleId.toList ∨ a.ruleId = b.ruleId)))

/-- Texts are compared by their bytes. -/
theorem bytes_lt_of_compare {s t : String} (h : compare s t = .lt) :
    bytes s.toList < bytes t.toList := by
  apply bytes_lt_bytes
  have hlt : s < t := compareOfLessAndEq_eq_lt.1 h
  exact hlt

/-- The order of reports in terms of bytes and numbers. -/
theorem notAfter_of_isLE {a b : Finding} (h : (order a b).isLE = true) : a.NotAfter b := by
  rw [order, Ordering.isLE_then_iff_or, Ordering.then_eq_lt, Ordering.then_eq_eq,
    Ordering.isLE_then_iff_or, Ordering.isLE_iff_eq_lt_or_eq_eq] at h
  simp only [Nat.compare_eq_lt, Nat.compare_eq_eq] at h
  rcases h with (hpath | ⟨hpath, hline⟩) | ⟨⟨hpath, hline⟩, hlater⟩
  · exact Or.inl (bytes_lt_of_compare hpath)
  · exact Or.inr ⟨Std.LawfulEqCmp.eq_of_compare hpath, Or.inl hline⟩
  · refine Or.inr ⟨Std.LawfulEqCmp.eq_of_compare hpath, Or.inr ⟨hline, ?_⟩⟩
    rcases hlater with hcolumn | ⟨hcolumn, hrule | hrule⟩
    · exact Or.inl hcolumn
    · exact Or.inr ⟨hcolumn, Or.inl (bytes_lt_of_compare hrule)⟩
    · exact Or.inr ⟨hcolumn, Or.inr (Std.LawfulEqCmp.eq_of_compare hrule)⟩

/-- A report is sorted. -/
theorem pairwise_sort (findings : List Finding) : (sort findings).Pairwise NotAfter := by
  have hsorted := List.pairwise_mergeSort (fun _ _ _ => Std.TransCmp.isLE_trans) (isLE_total order)
    findings
  exact hsorted.imp notAfter_of_isLE

end Finding
end DocAudit

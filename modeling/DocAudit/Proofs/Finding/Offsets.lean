import DocAudit.Proofs.Finding.Order
import DocAudit.Proofs.Text.Offsets

/-!
# Findings in the order of their offsets

A report is sorted by lines and columns, but the checks know of byte offsets only. Since lines and
columns go up with the offset, a report of one file lists the verdicts on it from the first to the last
place in the source, and by rule where two of them are at the same place.

* `Verdict.order`: the order of verdicts by their offset, then by their rule;
* `Finding.order_ofVerdict`: it is that of the findings;
* `Text.indexesLines`: what the lines and columns of a text say of its offsets.
-/

namespace DocAudit

open Text

/-- The order of verdicts on one source: by offset, then by rule. -/
def Verdict.order (a b : Verdict) : Ordering :=
  (compare a.position b.position).then (compare a.smell.id b.smell.id)

namespace Finding

variable {cs : List Char} {a b : Verdict}

/-- Findings in one file are ordered as their verdicts are. -/
theorem order_ofVerdict (path : String) (ha : isBoundary a.position cs = true)
    (hb : isBoundary b.position cs = true) :
    order (ofVerdict path cs a) (ofVerdict path cs b) = Verdict.order a b := by
  have hpath : compare path path = .eq := Std.ReflCmp.compare_self
  rw [Verdict.order, ← compare_locate ha hb]
  simp only [order, ofVerdict, ruleId, hpath, Ordering.then_assoc, Ordering.eq_then]

/-- A report on one file is the sorted list of the verdicts. -/
theorem sort_map_ofVerdict (path : String) {verdicts : List Verdict}
    (h : ∀ verdict ∈ verdicts, isBoundary verdict.position cs = true) :
    sort (verdicts.map (ofVerdict path cs)) =
      (verdicts.mergeSort fun a b => (Verdict.order a b).isLE).map (ofVerdict path cs) := by
  symm
  apply List.map_mergeSort
  intro a ha b hb
  rw [order_ofVerdict path (h a ha) (h b hb)]

/-- Of two findings in one file, the first one in a report has the lower offset, unless they are at
the same line and column. -/
theorem le_or_location_eq_of_notAfter {path : String}
    (h : NotAfter (ofVerdict path cs a) (ofVerdict path cs b)) :
    a.position ≤ b.position ∨ locate cs a.position = locate cs b.position := by
  rcases Nat.le_total a.position b.position with hle | hle
  · exact Or.inl hle
  · rcases locate_eq_or_before hle with heq | hbefore
    · exact Or.inr heq.symm
    · -- The finding with the lower offset would have to come first.
      obtain hlt | ⟨-, hplace⟩ := h
      · exact absurd hlt (List.lt_irrefl _)
      · simp only [ofVerdict] at hplace
        unfold Location.Before at hbefore
        omega

end Finding

namespace Text

/-- The lines and columns of a text, as a table of line starts gives them, say where its offsets are,
and in which order. -/
structure IndexesLines (cs : List Char) : Prop where
  /-- Every offset is found in the table, without a fault. -/
  lookup : ∀ offset, locateChecked cs offset = .ok (locate cs offset)
  /-- Its line is told by the line feeds in front of it, its column by the characters of its line. -/
  place : ∀ offset, HasPlace cs offset (locate cs offset)
  /-- A later offset has the same place or a later one. -/
  monotone : ∀ i j, i ≤ j → locate cs i = locate cs j ∨ (locate cs i).Before (locate cs j)
  /-- No two boundaries have the same place. -/
  injective : ∀ i j, isBoundary i cs = true → isBoundary j cs = true →
    locate cs i = locate cs j → i = j
  /-- A report on one file is the list of the verdicts, sorted by offset and then by rule. -/
  sorted : ∀ (path : String) (verdicts : List Verdict),
    (∀ verdict ∈ verdicts, isBoundary verdict.position cs = true) →
    Finding.sort (verdicts.map (Finding.ofVerdict path cs)) =
      (verdicts.mergeSort fun a b => (Verdict.order a b).isLE).map (Finding.ofVerdict path cs)
  /-- In a report on any files, two findings in this one stand in the order of their offsets, unless
  they are at the same line and column. -/
  ordered : ∀ findings, (Finding.sort findings).Pairwise fun a b =>
    ∀ path verdict later, a = Finding.ofVerdict path cs verdict →
      b = Finding.ofVerdict path cs later →
      verdict.position ≤ later.position ∨ a.location = b.location

/-- Lines and columns are those of the offsets, and have their order. -/
theorem indexesLines (cs : List Char) : IndexesLines cs where
  lookup := locateChecked_eq cs
  place := hasPlace_locate cs
  monotone _ _ := locate_eq_or_before
  injective _ _ := eq_of_locate_eq
  sorted path _ := Finding.sort_map_ofVerdict path
  ordered findings := by
    refine (Finding.pairwise_sort findings).imp ?_
    rintro _ _ hsorted path verdict later rfl rfl
    exact Finding.le_or_location_eq_of_notAfter hsorted

end Text
end DocAudit

import DocAudit.Proofs.Code.Tree
import DocAudit.Proofs.Detector.Rules
import DocAudit.Proofs.Finding.Order
import Mathlib.Data.List.Perm.Basic

/-!
# Merged reports

Files and detectors may be worked through in any order, and at the same time: the findings then come
interleaved. Sorted, they make the same report. Findings that the order of reports does not tell apart
are of one file and one rule, so one detector reported them all, in an order of its own.

* `IsInterleaving`: lists merged into one that keeps the order of each;
* `IsInterleaving.filter_eq`: elements that come from one of the lists keep their order;
* `Finding.sort_of_isInterleaving`: the report does not depend on the order of work.
-/

namespace DocAudit

open Code

/-! ## Interleavings -/

section Interleaving

variable {α : Type}

/-- A list is an interleaving of lists: it takes the first element of any of them, until there are
none left. -/
inductive IsInterleaving : List (List α) → List α → Prop
  /-- Nothing is left. -/
  | nil {lists : List (List α)} : (∀ list ∈ lists, list = []) → IsInterleaving lists []
  /-- The next element is the first of one of the lists. -/
  | cons {earlier later : List (List α)} {x : α} {list merged : List α} :
    IsInterleaving (earlier ++ list :: later) merged →
      IsInterleaving (earlier ++ (x :: list) :: later) (x :: merged)

namespace IsInterleaving

variable {lists lists' : List (List α)} {merged : List α}

/-- The order of the lists does not matter. -/
theorem of_perm (h : IsInterleaving lists merged) (hperm : lists.Perm lists') :
    IsInterleaving lists' merged := by
  induction h generalizing lists' with
  | nil hempty =>
    apply nil
    intro list hlist
    exact hempty list (hperm.mem_iff.2 hlist)
  | @cons earlier later x list merged _ ih =>
    -- The list that gives the next element stands somewhere among the others too.
    have hmem : x :: list ∈ lists' := hperm.mem_iff.1 (by simp)
    obtain ⟨earlier', later', rfl⟩ := List.append_of_mem hmem
    have hrest : (earlier ++ later).Perm (earlier' ++ later') :=
      (List.perm_middle.symm.trans (hperm.trans List.perm_middle)).cons_inv
    apply cons
    apply ih
    exact List.perm_middle.trans ((hrest.cons list).trans List.perm_middle.symm)

/-- Elements that stand in one of the lists only keep their order. -/
theorem filter_eq (h : IsInterleaving lists merged) {p : α → Bool}
    (hone : lists.Pairwise fun list other => list.filter p = [] ∨ other.filter p = []) :
    merged.filter p = lists.flatten.filter p := by
  induction h with
  | nil hempty => rw [List.flatten_eq_nil_iff.2 hempty]
  | @cons earlier later x list merged _ ih =>
    simp only [List.pairwise_append, List.pairwise_cons, List.mem_cons, forall_eq_or_imp,
      List.flatten_append, List.flatten_cons, List.filter_append] at hone ih ⊢
    by_cases hx : p x = true
    · -- The other lists have no such elements, in particular those in front of this one.
      have hfirst : (x :: list).filter p ≠ [] := by simp [hx]
      obtain ⟨hearlier, ⟨hnext, hlater⟩, hacross⟩ := hone
      have hnone : ∀ other ∈ earlier, other.filter p = [] := by
        intro other hother
        exact (hacross other hother).1.resolve_right hfirst
      have hfront : earlier.flatten.filter p = [] := by
        rw [List.filter_flatten, List.flatten_eq_nil_iff]
        simpa using hnone
      have hrest : merged.filter p = list.filter p ++ later.flatten.filter p := by
        rw [ih, hfront, List.nil_append]
        refine ⟨hearlier, ⟨?_, hlater⟩, ?_⟩
        · intro other hother
          exact Or.inr ((hnext other hother).resolve_left hfirst)
        · intro other hother
          exact ⟨Or.inl (hnone other hother), (hacross other hother).2⟩
      rw [List.filter_cons_of_pos hx, List.filter_cons_of_pos hx, hrest, hfront, List.nil_append,
        List.cons_append]
    · simp only [List.filter_cons_of_neg hx] at hone ⊢
      exact ih hone

/-- A list without elements changes nothing. -/
theorem nil_cons (h : IsInterleaving lists merged) : IsInterleaving ([] :: lists) merged := by
  induction h with
  | nil hempty => exact nil (by simpa using hempty)
  | @cons earlier later x list merged _ ih =>
    show IsInterleaving (([] :: earlier) ++ (x :: list) :: later) (x :: merged)
    exact cons ih

/-- Taking one list after the other is an interleaving. -/
theorem flatten (lists : List (List α)) : IsInterleaving lists lists.flatten := by
  induction lists with
  | nil => exact nil (by simp)
  | cons list lists ih =>
    induction list with
    | nil => exact ih.nil_cons
    | cons x list ihlist =>
      show IsInterleaving ([] ++ (x :: list) :: lists) (x :: (list ++ lists.flatten))
      exact cons ihlist

end IsInterleaving
end Interleaving

/-! ## The order of work -/

namespace Detector

/-- The findings of each of the detectors on each of the files, in the order of both. -/
def outputs (options : Options) (files : List (String × SourceFile)) (detectors : List Detector) :
    List (List Finding) :=
  files.flatMap fun file => detectors.map (·.findings options file.1 file.2)

variable {options : Options} {files files' : List (String × SourceFile)}
  {detectors detectors' : List Detector}

/-- The order of files and detectors changes the order of the outputs only. -/
theorem outputs_perm (hfiles : files.Perm files') (hdetectors : detectors.Perm detectors') :
    (outputs options files detectors).Perm (outputs options files' detectors') :=
  hfiles.flatMap fun _ _ => hdetectors.map _

/-- Without any reordering the outputs are the findings of the analysis. -/
theorem flatten_outputs_all :
    (outputs options files all).flatten =
      files.flatMap fun file => file.2.findings options file.1 := by
  rw [outputs, List.flatten_eq_flatMap, List.flatMap_assoc]
  simp only [SourceFile.findings, List.flatMap_map, id_eq]

/-- Findings that tie with a given one come from the detector of its rule on the file of its path. -/
theorem eq_of_ties_ne_nil {detector : Detector} {path : String} {file : SourceFile} {a : Finding}
    (h : ties Finding.order a (detector.findings options path file) ≠ []) :
    path = a.path ∧ detector = a.smell.detector := by
  obtain ⟨finding, hties⟩ := List.exists_mem_of_ne_nil _ h
  obtain ⟨hmem, htie⟩ := mem_ties.1 hties
  obtain ⟨verdict, hverdict, rfl⟩ := List.mem_map.1 hmem
  obtain ⟨hpath, hrule⟩ := Finding.eq_of_order_eq htie
  refine ⟨hpath.symm, ?_⟩
  rw [Smell.id_injective hrule]
  exact (detector_of_mem_verdicts hverdict).symm

/-- Findings that tie with a given one come from one output only. -/
theorem pairwise_outputs (hpaths : (files.map Prod.fst).Nodup) (hdetectors : detectors.Nodup)
    (a : Finding) :
    (outputs options files detectors).Pairwise fun output other =>
      ties Finding.order a output = [] ∨ ties Finding.order a other = [] := by
  rw [outputs, List.pairwise_flatMap]
  -- Two outputs on one file come from different detectors, and others from files of different paths.
  constructor
  · intro file _
    rw [List.pairwise_map]
    refine hdetectors.imp fun hne => ?_
    by_contra! h
    exact hne ((eq_of_ties_ne_nil h.1).2.trans (eq_of_ties_ne_nil h.2).2.symm)
  · rw [List.Nodup, List.pairwise_map] at hpaths
    refine hpaths.imp fun hne => ?_
    intro output houtput other hother
    obtain ⟨detector, -, rfl⟩ := List.mem_map.1 houtput
    obtain ⟨detector', -, rfl⟩ := List.mem_map.1 hother
    by_contra! h
    exact hne ((eq_of_ties_ne_nil h.1).1.trans (eq_of_ties_ne_nil h.2).1.symm)

end Detector

/-- The report does not depend on the order of work: however files of different paths and detectors
are ordered, and however the outputs of all detectors on all files are interleaved, the sorted
findings are those of the files analysed one after the other, and they are in the order of reports. -/
theorem Finding.sort_of_isInterleaving (options : Options)
    {files files' : List (String × SourceFile)} {detectors : List Detector} {merged : List Finding}
    (hpaths : (files.map Prod.fst).Nodup) (hfiles : files'.Perm files)
    (hdetectors : detectors.Perm Detector.all)
    (hmerged : IsInterleaving (Detector.outputs options files' detectors) merged) :
    sort merged = sort (files.flatMap fun file => file.2.findings options file.1) ∧
      (sort merged).Perm merged ∧ (sort merged).Pairwise NotAfter := by
  refine ⟨?_, List.mergeSort_perm _ _, pairwise_sort merged⟩
  rw [← Detector.flatten_outputs_all]
  -- The ties of a finding keep the order in which one detector reported them.
  have hordered := hmerged.of_perm (Detector.outputs_perm hfiles hdetectors)
  apply mergeSort_eq_mergeSort
  intro a
  exact hordered.filter_eq (Detector.pairwise_outputs hpaths (by decide) a)

/-- Two files and all detectors in the opposite order. -/
theorem Finding.sort_of_isInterleaving_reversed :
    let files := [("a.cs", SourceFile.commentedClass "/// <param>x"),
      ("b.cs", SourceFile.commentedClass "/// <summary/><exception/>")]
    let merged := (Detector.outputs {} files.reverse Detector.all.reverse).flatten
    (files.map Prod.fst).Nodup ∧ files.reverse.Perm files ∧
      Detector.all.reverse.Perm Detector.all ∧
      IsInterleaving (Detector.outputs {} files.reverse Detector.all.reverse) merged ∧
      (merged.map fun finding => (finding.path, finding.ruleId)) =
        [("b.cs", "DOC700"), ("b.cs", "DOC210"), ("b.cs", "DOC600"), ("a.cs", "DOC200"),
          ("a.cs", "DOC002"), ("a.cs", "DOC300")] ∧
      sort merged = sort (files.flatMap fun file => file.2.findings {} file.1) ∧
      (sort merged).Perm merged ∧ (sort merged).Pairwise NotAfter := by
  intro files merged
  have hpaths : (files.map Prod.fst).Nodup := by decide
  have hfiles : files.reverse.Perm files := List.reverse_perm files
  have hdetectors : Detector.all.reverse.Perm Detector.all := List.reverse_perm Detector.all
  have hmerged := IsInterleaving.flatten (Detector.outputs {} files.reverse Detector.all.reverse)
  have hrules : (merged.map fun finding => (finding.path, finding.ruleId)) =
      [("b.cs", "DOC700"), ("b.cs", "DOC210"), ("b.cs", "DOC600"), ("a.cs", "DOC200"),
        ("a.cs", "DOC002"), ("a.cs", "DOC300")] := by
    decide +kernel
  exact ⟨hpaths, hfiles, hdetectors, hmerged, hrules,
    sort_of_isInterleaving {} hpaths hfiles hdetectors hmerged⟩

end DocAudit

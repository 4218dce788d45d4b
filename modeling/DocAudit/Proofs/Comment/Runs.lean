import DocAudit.Comment.Collect
import DocAudit.Proofs.Code.Tree
import Mathlib.Data.List.Flatten

/-!
# Runs of doc comments

The runs of a tree are made by one walk over the children of every node, the run in front of a node
by a walk back over its siblings. Both make the same runs.

* `flatten_runsBelow`: every doc comment of a tree stands in its runs, in the order of the text;
* `flatMap_runAt_places_sublist`: the runs in front of nodes that are no comments are among the runs
  of the tree, each at a place of its own;
* `pairwise_runsBelow`, `pairwise_of_mem_runsBelow`: runs, and the comments of a run, follow one
  another in the text.
-/

namespace DocAudit.Comment

open Code

variable {source : List Char}

/-! ## Doc comments -/

/-- A doc comment takes up room: an empty text is none. -/
theorem start_lt_stop_of_isDocNode {node : Node} (h : isDocNode source node = true) :
    node.start < node.stop := by
  refine Nat.lt_of_not_le ?_
  intro hle
  -- Otherwise the node has no text, and no sign of a doc comment in it.
  have hlength : node.stop - node.start = 0 := by omega
  have htext : node.text source = [] := by
    rw [Node.text, Text.slice, hlength, Text.takeBytes]
  have hdoc : isDocText (node.text source) = true := (Bool.and_eq_true_iff.1 h).2
  rw [htext] at hdoc
  exact absurd hdoc (by decide)

/-! ## Runs in the order of the text -/

@[simp]
theorem flatten_closeRun (run : List Node) : (closeRun run).flatten = run := by
  cases run with
  | nil => rfl
  | cons node run => simp [closeRun]

theorem mem_closeRun {run found : List Node} (h : found ∈ closeRun run) :
    found = run ∧ run ≠ [] := by
  cases run with
  | nil => cases h
  | cons node run => exact ⟨by simpa [closeRun] using h, by simp⟩

theorem mem_closeRun_self {run : List Node} (h : run ≠ []) : run ∈ closeRun run := by
  cases run with
  | nil => exact absurd rfl h
  | cons node run => exact List.mem_cons_self

mutual

/-- No run of a tree is empty. -/
theorem ne_nil_of_mem_runsBelow {root : Node} {found : List Node}
    (h : found ∈ runsBelow source root) : found ≠ [] := by
  cases root with
  | mk label children => exact ne_nil_of_mem_runsAmong h

/-- No run among siblings is empty. -/
theorem ne_nil_of_mem_runsAmong {run nodes found : List Node}
    (h : found ∈ runsAmong source run nodes) : found ≠ [] := by
  cases nodes with
  | nil =>
    obtain ⟨rfl, hne⟩ := mem_closeRun h
    exact hne
  | cons node nodes =>
    rw [runsAmong] at h
    split at h
    · exact ne_nil_of_mem_runsAmong h
    · rcases List.mem_append.1 h with h | h
      · rcases List.mem_append.1 h with h | h
        · obtain ⟨rfl, hne⟩ := mem_closeRun h
          exact hne
        · exact ne_nil_of_mem_runsBelow h
      · exact ne_nil_of_mem_runsAmong h

end

mutual

/-- The runs of a tree hold the doc comments below its root. -/
theorem flatten_runsBelow {root : Node} (h : root.IsTree) :
    (runsBelow source root).flatten =
      (Node.preorderOfAll root.children).filter (isDocNode source) := by
  cases root with
  | mk label children =>
    rw [runsBelow]
    exact flatten_runsAmong h.children

/-- The runs among siblings hold the run that has begun and the doc comments that follow. -/
theorem flatten_runsAmong {run nodes : List Node} (h : Node.AreTrees nodes) :
    (runsAmong source run nodes).flatten =
      run ++ (Node.preorderOfAll nodes).filter (isDocNode source) := by
  cases nodes with
  | nil =>
    rw [runsAmong, flatten_closeRun, Node.preorderOfAll, List.filter_nil, List.append_nil]
  | cons node nodes =>
    rw [runsAmong, Node.preorderOfAll, Node.preorder_eq, List.filter_append]
    by_cases hcomment : node.isComment = true
    · -- A comment is a leaf, so it is all there is to its own tree.
      rw [if_pos hcomment, flatten_runsAmong h.tail, h.head.fits.leaf hcomment]
      by_cases hdoc : isDocText (node.text source) = true
      · simp [isDocNode, hcomment, hdoc, Node.preorderOfAll]
      · simp [isDocNode, hdoc, Node.preorderOfAll]
    · -- Any other node ends the run and is searched before its later siblings.
      have hdoc : isDocNode source node = false := by simp [isDocNode, hcomment]
      rw [if_neg hcomment, List.flatten_append, List.flatten_append, flatten_closeRun,
        flatten_runsBelow h.head, flatten_runsAmong h.tail]
      simp [hdoc]

end

/-- The doc comments of a tree follow one another in the text. -/
theorem pairwise_docNodes (source : List Char) {root : Node} (h : root.IsTree) :
    (root.preorder.filter (isDocNode source)).Pairwise fun a b => a.stop ≤ b.start := by
  refine (Node.pairwise_comments h).sublist ?_
  have hfilter : root.preorder.filter (isDocNode source) =
      (root.preorder.filter Node.isComment).filter fun node =>
        Comment.isDocText (node.text source) := by
    rw [List.filter_filter]
    apply congrArg fun p => List.filter p root.preorder
    ext node
    exact Bool.and_comm _ _
  rw [hfilter]
  exact List.filter_sublist

/-- All doc comments of a tree whose root is none stand in its runs. -/
theorem flatten_runsBelow_eq_filter_preorder {root : Node} (h : root.IsTree)
    (hroot : root.isComment = false) :
    (runsBelow source root).flatten = root.preorder.filter (isDocNode source) := by
  have hdoc : isDocNode source root = false := by simp [isDocNode, hroot]
  rw [flatten_runsBelow h, Node.preorder_eq, List.filter_cons_of_neg (by simp [hdoc])]

section Order

variable {root : Node} (h : root.IsTree) (hroot : root.isComment = false)
include h hroot

/-- The comments of a run follow one another in the text. -/
theorem pairwise_of_mem_runsBelow {run : List Node} (hrun : run ∈ runsBelow source root) :
    run.Pairwise fun a b => a.stop ≤ b.start := by
  have hpairwise := pairwise_docNodes source h
  rw [← flatten_runsBelow_eq_filter_preorder h hroot, List.pairwise_flatten] at hpairwise
  exact hpairwise.1 run hrun

/-- The runs of a tree follow one another in the text. -/
theorem pairwise_runsBelow (source : List Char) :
    (runsBelow source root).Pairwise fun run later => ∀ a ∈ run, ∀ b ∈ later, a.stop ≤ b.start := by
  have hpairwise := pairwise_docNodes source h
  rw [← flatten_runsBelow_eq_filter_preorder h hroot, List.pairwise_flatten] at hpairwise
  exact hpairwise.2

end Order

/-! ## Runs in front of nodes -/

/-- The doc comments directly in front of a place, as a list of runs. -/
def runAt (source : List Char) (place : Place) : List (List Node) :=
  if place.node.isComment then [] else closeRun (runBefore source place.earlier)

theorem runBefore_cons_of_isComment {node : Node} (earlier : List Node)
    (h : node.isComment = true) :
    runBefore source (node :: earlier) =
      if isDocText (node.text source) then runBefore source earlier ++ [node]
      else runBefore source earlier := by
  rw [runBefore, List.takeWhile_cons_of_pos h, List.filter_cons]
  split
  · rw [List.reverse_cons, runBefore]
  · rw [runBefore]

theorem runBefore_cons_of_not_isComment {node : Node} (earlier : List Node)
    (h : ¬node.isComment = true) : runBefore source (node :: earlier) = [] := by
  rw [runBefore, List.takeWhile_cons_of_neg h]
  rfl

mutual

/-- The runs in front of the nodes below a node are among the runs of its tree. -/
theorem flatMap_runAt_placesAmong_children_sublist {root : Node} (h : root.IsTree)
    (ancestors : List Node) :
    ((Node.placesAmong ancestors [] root.children).flatMap (runAt source)).Sublist
      (runsBelow source root) := by
  cases root with
  | mk label children =>
    rw [runsBelow]
    exact flatMap_runAt_placesAmong_sublist h.children ancestors []

/-- The runs in front of siblings and of the nodes below them are among the runs that the walk over
the siblings makes, when it has begun the run in front of the first of them. -/
theorem flatMap_runAt_placesAmong_sublist {nodes : List Node} (h : Node.AreTrees nodes)
    (ancestors earlier : List Node) :
    ((Node.placesAmong ancestors earlier nodes).flatMap (runAt source)).Sublist
      (runsAmong source (runBefore source earlier) nodes) := by
  cases nodes with
  | nil => exact List.nil_sublist _
  | cons node nodes =>
    have hlater := flatMap_runAt_placesAmong_sublist h.tail ancestors (node :: earlier)
    rw [Node.placesAmong, Node.places_eq, List.flatMap_append, List.flatMap_cons, runsAmong]
    by_cases hcomment : node.isComment = true
    · -- A comment goes on with the run that the places after it see in front of them.
      rw [runBefore_cons_of_isComment earlier hcomment] at hlater
      rw [if_pos hcomment, runAt, if_pos hcomment, h.head.fits.leaf hcomment]
      exact hlater
    · -- Any other node ends the run: it is in front of that node and of no later one.
      rw [runBefore_cons_of_not_isComment earlier hcomment] at hlater
      rw [if_neg hcomment, runAt, if_neg hcomment]
      refine List.Sublist.append (List.Sublist.append (List.Sublist.refl _) ?_) hlater
      exact flatMap_runAt_placesAmong_children_sublist h.head (node :: ancestors)

end

/-- The runs in front of the nodes of a tree that are no comments are among the runs of the tree. -/
theorem flatMap_runAt_places_sublist {root : Node} (h : root.IsTree) :
    ((root.places [] []).flatMap (runAt source)).Sublist (runsBelow source root) := by
  -- No sibling stands in front of the root.
  have hfirst : runAt source ⟨[], [], root⟩ = [] := by
    rw [runAt]
    split <;> rfl
  rw [Node.places_eq, List.flatMap_cons, hfirst, List.nil_append]
  exact flatMap_runAt_placesAmong_children_sublist h [root]

end DocAudit.Comment

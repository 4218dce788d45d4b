import DocAudit.Code.Node
import DocAudit.Proofs.Text.Cuts
import Mathlib.Data.List.Chain

/-!
# Trees that fit their text

In the tree of a source text, children stand inside their parent, in the order of the text and
without overlap, and comments have no children. A node may occur more than once as a value; its
place tells the occurrences apart.

* `Node.IsTree`: every node of a tree fits its children;
* `Node.IsEnclosing`: every node of a tree stands around its children;
* `Node.mem_preorder_induction`: what goes from nodes to their children goes through a whole tree;
* `SourceFile.IsWellFormed`: the tree of a file fits its text, as that of `SourceFile.commentedClass`
  does;
* `Node.pairwise_comments`: the comments of a tree follow one another in the text;
* `Node.places`: every occurrence of a node with what stands around it and in front of it;
* `Node.map_node_places`: the nodes of these places are those of the tree, in its order;
* `Node.liesBelow_of_mem_places`: around each of them stand its parent, and so on up to the root.
-/

namespace DocAudit.Code

namespace Node

/-- The node fits its children. -/
structure Fits (node : Node) : Prop where
  /-- The node does not stop before it starts. -/
  start_le_stop : node.start ≤ node.stop
  /-- The children stand in the order of the text and do not overlap. -/
  apart : node.children.Pairwise fun child later => child.stop ≤ later.start
  /-- The children stand inside the node. -/
  inside : ∀ child ∈ node.children, node.start ≤ child.start ∧ child.stop ≤ node.stop
  /-- A comment has no children. -/
  leaf : node.isComment = true → node.children = []

theorem fits_iff (node : Node) :
    node.Fits ↔ node.start ≤ node.stop ∧
      (node.children.Pairwise fun child later => child.stop ≤ later.start) ∧
      (∀ child ∈ node.children, node.start ≤ child.start ∧ child.stop ≤ node.stop) ∧
      (node.isComment = true → node.children.isEmpty = true) :=
  ⟨fun h => ⟨h.start_le_stop, h.apart, h.inside, fun hc => by simp [h.leaf hc]⟩,
    fun h => ⟨h.1, h.2.1, h.2.2.1, fun hc => by simpa using h.2.2.2 hc⟩⟩

instance (node : Node) : Decidable node.Fits :=
  decidable_of_iff' _ node.fits_iff

/-- Every node of the tree fits its children. -/
def IsTree (root : Node) : Prop :=
  ∀ node ∈ root.preorder, node.Fits

instance (root : Node) : Decidable root.IsTree :=
  inferInstanceAs (Decidable (∀ node ∈ root.preorder, node.Fits))

/-- Every node of the trees fits its children. -/
def AreTrees (nodes : List Node) : Prop :=
  ∀ node ∈ preorderOfAll nodes, node.Fits

theorem preorder_eq (node : Node) : node.preorder = node :: preorderOfAll node.children := by
  cases node with
  | mk label children => rw [preorder, Node.children]

theorem self_mem_preorder (node : Node) : node ∈ node.preorder := by
  rw [preorder_eq]
  exact List.mem_cons_self

theorem IsTree.fits {root : Node} (h : root.IsTree) : root.Fits :=
  h root root.self_mem_preorder

theorem IsTree.children {root : Node} (h : root.IsTree) : AreTrees root.children := by
  intro node hmem
  apply h node
  rw [preorder_eq]
  exact List.mem_cons_of_mem _ hmem

theorem AreTrees.head {node : Node} {nodes : List Node} (h : AreTrees (node :: nodes)) :
    node.IsTree := by
  intro inner hmem
  apply h inner
  rw [preorderOfAll]
  exact List.mem_append_left _ hmem

theorem AreTrees.tail {node : Node} {nodes : List Node} (h : AreTrees (node :: nodes)) :
    AreTrees nodes := by
  intro inner hmem
  apply h inner
  rw [preorderOfAll]
  exact List.mem_append_right _ hmem

/-- The nodes of a list of trees are those of each of them, one tree after the other. -/
theorem preorderOfAll_eq_flatMap (nodes : List Node) :
    preorderOfAll nodes = nodes.flatMap preorder := by
  induction nodes with
  | nil => rfl
  | cons node nodes ih => rw [preorderOfAll, ih, List.flatMap_cons]

/-- The nodes of the subtree at a child are nodes of the tree, in its order. -/
theorem preorder_sublist_of_mem_children {root child : Node} (h : child ∈ root.children) :
    child.preorder.Sublist root.preorder := by
  rw [preorder_eq root, preorderOfAll_eq_flatMap]
  exact (List.sublist_flatten_of_mem (List.mem_map_of_mem h)).cons root

/-- What holds of the root, and of the children of every node of which it holds, holds of all nodes of
a tree. -/
theorem mem_preorder_induction {motive : Node → Prop} {root : Node} (hroot : motive root)
    (hchild : ∀ node ∈ root.preorder, motive node → ∀ child ∈ node.children, motive child) :
    ∀ node ∈ root.preorder, motive node := by
  intro node hmem
  rw [preorder_eq, preorderOfAll_eq_flatMap] at hmem
  rcases List.mem_cons.1 hmem with rfl | hmem
  · exact hroot
  · obtain ⟨child, hmemChild, hmem⟩ := List.mem_flatMap.1 hmem
    have hsub := (preorder_sublist_of_mem_children hmemChild).subset
    exact mem_preorder_induction (hchild root root.self_mem_preorder hroot child hmemChild)
      (fun inner hinner => hchild inner (hsub hinner)) node hmem
termination_by sizeOf root
decreasing_by
  cases root with
  | mk label children =>
    have := List.sizeOf_lt_of_mem hmemChild
    simp only [mk.sizeOf_spec]
    simp only [Node.children] at this
    omega

/-- The nodes of every part of the tree are nodes of the tree, in its order. -/
theorem preorder_sublist_of_mem_preorder {root node : Node} (h : node ∈ root.preorder) :
    node.preorder.Sublist root.preorder :=
  mem_preorder_induction (motive := fun node => node.preorder.Sublist root.preorder)
    (List.Sublist.refl _)
    (fun _ _ hnode _ hchild => (preorder_sublist_of_mem_children hchild).trans hnode) node h

/-- All over the tree, a node does not stop before it starts, and its children stand inside it. -/
def IsEnclosing (root : Node) : Prop :=
  ∀ node ∈ root.preorder, node.start ≤ node.stop ∧
    ∀ child ∈ node.children, node.start ≤ child.start ∧ child.stop ≤ node.stop

instance (root : Node) : Decidable root.IsEnclosing :=
  inferInstanceAs (Decidable (∀ node ∈ root.preorder, _))

theorem IsTree.isEnclosing {root : Node} (h : root.IsTree) : root.IsEnclosing :=
  fun node hmem => ⟨(h node hmem).start_le_stop, (h node hmem).inside⟩

/-- So it is in every part of the tree. -/
theorem IsEnclosing.of_mem_preorder {root node : Node} (h : root.IsEnclosing)
    (hmem : node ∈ root.preorder) : node.IsEnclosing :=
  fun inner hinner => h inner ((preorder_sublist_of_mem_preorder hmem).subset hinner)

/-- Every node of such a tree stands inside its root. -/
theorem IsEnclosing.inside_of_mem_preorder {root node : Node} (h : root.IsEnclosing)
    (hmem : node ∈ root.preorder) : root.start ≤ node.start ∧ node.stop ≤ root.stop := by
  refine mem_preorder_induction (motive := fun node => root.start ≤ node.start ∧
    node.stop ≤ root.stop) ⟨Nat.le_refl _, Nat.le_refl _⟩ ?_ node hmem
  intro node hmem hnode child hchild
  -- A child is inside its parent, and the parent inside the root.
  have hinside := (h node hmem).2 child hchild
  exact ⟨Nat.le_trans hnode.1 hinside.1, Nat.le_trans hinside.2 hnode.2⟩

/-- Every node of a list of trees stands inside one of them. -/
theorem exists_around_of_mem_preorderOfAll {nodes : List Node} {node : Node} (h : AreTrees nodes)
    (hmem : node ∈ preorderOfAll nodes) :
    ∃ child ∈ nodes, child.start ≤ node.start ∧ node.stop ≤ child.stop := by
  rw [preorderOfAll_eq_flatMap] at hmem
  obtain ⟨child, hchild, hmem⟩ := List.mem_flatMap.1 hmem
  have htree : child.IsTree := by
    intro inner hinner
    apply h inner
    rw [preorderOfAll_eq_flatMap]
    exact List.mem_flatMap.2 ⟨child, hchild, hinner⟩
  exact ⟨child, hchild, htree.isEnclosing.inside_of_mem_preorder hmem⟩

mutual

/-- The comments of a tree follow one another in the text. -/
theorem pairwise_comments {root : Node} (h : root.IsTree) :
    (root.preorder.filter isComment).Pairwise fun comment later => comment.stop ≤ later.start := by
  cases root with
  | mk label children =>
    rw [preorder]
    by_cases hcomment : (mk label children).isComment = true
    · -- A comment is a leaf, so it is alone.
      obtain rfl : children = [] := h.fits.leaf hcomment
      rw [List.filter_cons_of_pos hcomment, preorderOfAll, List.filter_nil]
      exact List.pairwise_singleton _ _
    · rw [List.filter_cons_of_neg hcomment]
      exact pairwise_commentsOfAll h.children h.fits.apart

/-- The comments of trees that follow one another do so as well. -/
theorem pairwise_commentsOfAll {nodes : List Node} (h : AreTrees nodes)
    (hapart : nodes.Pairwise fun node later => node.stop ≤ later.start) :
    ((preorderOfAll nodes).filter isComment).Pairwise
      fun comment later => comment.stop ≤ later.start := by
  cases nodes with
  | nil => exact List.Pairwise.nil
  | cons node nodes =>
    obtain ⟨hfirst, hrest⟩ := List.pairwise_cons.1 hapart
    rw [preorderOfAll, List.filter_append, List.pairwise_append]
    refine ⟨pairwise_comments h.head, pairwise_commentsOfAll h.tail hrest, ?_⟩
    -- Across two trees, the trees keep the comments apart.
    intro comment hcomment later hlater
    have hinside :=
      h.head.isEnclosing.inside_of_mem_preorder (List.mem_filter.1 hcomment).1
    obtain ⟨around, haround, haroundStart, -⟩ :=
      exists_around_of_mem_preorderOfAll h.tail (List.mem_filter.1 hlater).1
    calc comment.stop ≤ node.stop := hinside.2
      _ ≤ around.start := hfirst around haround
      _ ≤ later.start := haroundStart

end

/-- Nodes that follow one another stand between the start of the first and the end of the last. -/
theorem inside_of_pairwise {nodes : List Node} (hne : nodes ≠ [])
    (hwidth : ∀ node ∈ nodes, node.start ≤ node.stop)
    (hapart : nodes.Pairwise fun node later => node.stop ≤ later.start) :
    ∀ node ∈ nodes, (nodes.head hne).start ≤ node.start ∧ node.stop ≤ (nodes.getLast hne).stop := by
  induction nodes with
  | nil => exact absurd rfl hne
  | cons first nodes ih =>
    obtain ⟨hfirst, hrest⟩ := List.pairwise_cons.1 hapart
    have hstart := hwidth first List.mem_cons_self
    rw [List.head_cons]
    cases nodes with
    | nil =>
      intro node hmem
      obtain rfl := List.mem_singleton.1 hmem
      exact ⟨Nat.le_refl _, Nat.le_refl _⟩
    | cons next nodes =>
      rw [List.getLast_cons (List.cons_ne_nil next nodes)]
      have hlater := ih (List.cons_ne_nil next nodes)
        (fun node hmem => hwidth node (List.mem_cons_of_mem _ hmem)) hrest
      intro node hmem
      rcases List.mem_cons.1 hmem with rfl | hmem
      · have hnext := hlater next List.mem_cons_self
        have hle := hfirst next List.mem_cons_self
        have hwide := hwidth next (List.mem_cons_of_mem _ List.mem_cons_self)
        omega
      · have hle := hfirst node hmem
        have hbelow := (hlater node hmem).2
        omega

end Node

/-- The tree of the file is a tree of its text: its nodes stand between characters of the text, and
its root is no comment. -/
structure SourceFile.IsWellFormed (file : SourceFile) : Prop where
  /-- Every node fits its children. -/
  isTree : file.root.IsTree
  /-- The root stands for the whole file. -/
  not_isComment_root : file.root.isComment = false
  /-- Every node starts and stops between two characters. -/
  isBoundary : ∀ node ∈ file.root.preorder,
    Text.isBoundary node.start file.text = true ∧ Text.isBoundary node.stop file.text = true

/-- A class with the given comment on the line above it. -/
def SourceFile.commentedClass (comment : String) : SourceFile where
  text := comment.toList ++ "\nclass C{}".toList
  root :=
    let stop := Text.byteLength comment.toList
    .mk ⟨"compilation_unit", true, false, 0, stop + 10, none⟩
      [.mk ⟨"comment", true, false, 0, stop, none⟩ [],
        .mk ⟨"class_declaration", true, false, stop + 1, stop + 10, none⟩
          [.mk ⟨"class", false, false, stop + 1, stop + 6, none⟩ [],
            .mk ⟨"identifier", true, false, stop + 7, stop + 8, some "name"⟩ [],
            .mk ⟨"declaration_list", true, false, stop + 8, stop + 10, some "body"⟩ []]]
  hasErrors := false

theorem SourceFile.isWellFormed_commentedClass (comment : String) :
    (commentedClass comment).IsWellFormed where
  isTree := by
    intro node hmem
    simp only [commentedClass, Node.preorder, Node.preorderOfAll, List.cons_append, List.nil_append,
      List.mem_cons, List.not_mem_nil, or_false] at hmem
    rcases hmem with rfl | rfl | rfl | rfl | rfl | rfl <;> rw [Node.fits_iff] <;>
      simp [Node.start, Node.stop, Node.children, Node.label, Node.isComment, Node.kind,
        Node.commentKind]
  not_isComment_root := rfl
  isBoundary := by
    -- All nodes start and stop in front of the class, inside of it, or at one of its ends.
    have hboundary (offset : Nat) : Text.isBoundary (Text.byteLength comment.toList + offset)
        (comment.toList ++ "\nclass C{}".toList) =
          Text.isBoundary offset "\nclass C{}".toList :=
      Text.isBoundary_add_append _ _ offset
    have hstart : Text.isBoundary 0 (comment.toList ++ "\nclass C{}".toList) = true := by
      simp [Text.isBoundary]
    have hstop := Text.isBoundary_append comment.toList "\nclass C{}".toList
    intro node hmem
    simp only [commentedClass, Node.preorder, Node.preorderOfAll, List.cons_append, List.nil_append,
      List.mem_cons, List.not_mem_nil, or_false] at hmem
    rcases hmem with rfl | rfl | rfl | rfl | rfl | rfl <;>
      simp only [Node.start, Node.stop, Node.label, commentedClass, hboundary, hstart, hstop] <;>
      decide

/-- An occurrence of a node in a tree. -/
structure Place where
  /-- The nodes around the node, nearest first. -/
  ancestors : List Node
  /-- The siblings in front of the node, nearest first. -/
  earlier : List Node
  /-- The node. -/
  node : Node
deriving Repr

namespace Node

mutual

/-- The places of a node and of all nodes below it, in the order of the text. -/
def places (ancestors earlier : List Node) : Node → List Place
  | mk label children =>
    ⟨ancestors, earlier, mk label children⟩ ::
      placesAmong (mk label children :: ancestors) [] children

/-- The places of siblings and of all nodes below them, given the siblings in front. -/
def placesAmong (ancestors earlier : List Node) : List Node → List Place
  | [] => []
  | node :: nodes => node.places ancestors earlier ++ placesAmong ancestors (node :: earlier) nodes

end

theorem places_eq (ancestors earlier : List Node) (node : Node) :
    node.places ancestors earlier =
      ⟨ancestors, earlier, node⟩ :: placesAmong (node :: ancestors) [] node.children := by
  cases node with
  | mk label children => rw [places, Node.children]

mutual

/-- The places of a tree are those of its nodes. -/
theorem map_node_places (ancestors earlier : List Node) (root : Node) :
    (root.places ancestors earlier).map Place.node = root.preorder := by
  cases root with
  | mk label children => rw [places, List.map_cons, map_node_placesAmong, preorder]

/-- The places of a list of trees are those of their nodes. -/
theorem map_node_placesAmong (ancestors earlier nodes : List Node) :
    (placesAmong ancestors earlier nodes).map Place.node = preorderOfAll nodes := by
  cases nodes with
  | nil => rfl
  | cons node nodes =>
    rw [placesAmong, List.map_append, map_node_places, map_node_placesAmong, preorderOfAll]

end

end Node

/-- The place is one of a tree: with the node and what stands around it, each is a child of the next,
and the last is the root. -/
structure Place.LiesBelow (root : Node) (place : Place) : Prop where
  /-- Around the node stands its parent, around that the parent of the parent, and so on, -/
  isChain : (place.node :: place.ancestors).IsChain fun child parent => child ∈ parent.children
  /-- up to the root. -/
  getLast?_eq : (place.node :: place.ancestors).getLast? = some root

namespace Node

mutual

/-- Around the nodes of a tree stands what stands around the tree. -/
theorem isSuffix_ancestors_of_mem_places {ancestors earlier : List Node} {root : Node} {place : Place}
    (h : place ∈ root.places ancestors earlier) : ancestors <:+ place.ancestors := by
  cases root with
  | mk label children =>
    rw [places] at h
    rcases List.mem_cons.1 h with rfl | h
    · exact List.suffix_refl _
    · exact (List.suffix_cons _ _).trans (isSuffix_ancestors_of_mem_placesAmong h)

/-- Around the nodes of a list of trees stands what stands around the list. -/
theorem isSuffix_ancestors_of_mem_placesAmong {ancestors earlier nodes : List Node} {place : Place}
    (h : place ∈ placesAmong ancestors earlier nodes) : ancestors <:+ place.ancestors := by
  cases nodes with
  | nil => cases h
  | cons node nodes =>
    rw [placesAmong] at h
    rcases List.mem_append.1 h with h | h
    · exact isSuffix_ancestors_of_mem_places h
    · exact isSuffix_ancestors_of_mem_placesAmong h

end

mutual

/-- With the nodes around it, a node of a tree makes a chain of children and parents, if the root of
the tree does. -/
theorem isChain_of_mem_places {ancestors earlier : List Node} {root : Node} {place : Place}
    (hroot : (root :: ancestors).IsChain fun child parent => child ∈ parent.children)
    (h : place ∈ root.places ancestors earlier) :
    (place.node :: place.ancestors).IsChain fun child parent => child ∈ parent.children := by
  cases root with
  | mk label children =>
    rw [places] at h
    rcases List.mem_cons.1 h with rfl | h
    · exact hroot
    · refine isChain_of_mem_placesAmong (fun child hchild => ?_) h
      exact List.isChain_cons_cons.2 ⟨hchild, hroot⟩

/-- So does a node of a list of trees, if the roots of all of them do. -/
theorem isChain_of_mem_placesAmong {ancestors earlier nodes : List Node} {place : Place}
    (hnodes : ∀ node ∈ nodes,
      (node :: ancestors).IsChain fun child parent => child ∈ parent.children)
    (h : place ∈ placesAmong ancestors earlier nodes) :
    (place.node :: place.ancestors).IsChain fun child parent => child ∈ parent.children := by
  cases nodes with
  | nil => cases h
  | cons node nodes =>
    rw [placesAmong] at h
    rcases List.mem_append.1 h with h | h
    · exact isChain_of_mem_places (hnodes node List.mem_cons_self) h
    · exact isChain_of_mem_placesAmong
        (fun later hlater => hnodes later (List.mem_cons_of_mem _ hlater)) h

end

/-- Every place of a tree is one below its root. -/
theorem liesBelow_of_mem_places {root : Node} {place : Place} (h : place ∈ root.places [] []) :
    place.LiesBelow root := by
  refine ⟨isChain_of_mem_places (List.isChain_singleton root) h, ?_⟩
  rw [places_eq] at h
  rcases List.mem_cons.1 h with rfl | h
  · rfl
  · -- All places but the first have the root around them.
    obtain ⟨inner, hinner⟩ := isSuffix_ancestors_of_mem_placesAmong h
    rw [← hinner, ← List.cons_append, List.getLast?_concat]

end Node
end DocAudit.Code

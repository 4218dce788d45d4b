import DocAudit.Comment.Content
import Mathlib.Tactic.Tauto

/-!
# Content at any depth

Whether an element has content is decided by a search through the nodes inside of it, which stops at
elements that render a text of their own and looks into all others. What it comes to is that one node,
at any depth, is seen by a reader. So content is not lost when more nodes are put in, and an element
put around some of the nodes adds what its own tag renders and nothing else.

* `Node.IsSeen`: what a reader sees of a node itself;
* `Node.StandsIn`: nodes at any depth;
* `Node.anyMeaningful_iff`: the search finds a node that is seen if there is one;
* `Node.Grows`, `Node.Wraps`: more nodes in a forest, and one more element around some of them;
* `Node.anyMeaningful_unwrapAll`: elements taken away from around their insides;
* `Element.findsContent`: what decides about the content of an element.
-/

namespace DocAudit.Markup

open Text

/-! ## What is seen -/

/-- The tag of an element renders a text. -/
inductive Tag.IsSeen : Tag → Prop
  /-- The text is inherited. -/
  | inherited {tag : Tag} (hname : tag.name = "inheritdoc") : IsSeen tag
  /-- The text is the target of an inline reference: the first value of one of the attributes that
  can name a target. -/
  | target {tag : Tag} (hname : tag.name ∈ ["see", "seealso", "paramref", "typeparamref"])
      {key value : String} (hkey : key ∈ ["cref", "name", "langword", "href"])
      (hvalue : tag.attribute? key = some value)
      {c : Char} (hc : c ∈ value.toList) (hblank : isBlankChar c = false) : IsSeen tag

/-- A reader sees the node, whatever is inside of it. -/
inductive Node.IsSeen : Node → Prop
  /-- A text that is not all blanks. -/
  | text (span : Span) {content : String} {c : Char} (hc : c ∈ content.toList)
      (hblank : isBlankChar c = false) : IsSeen (text span content)
  /-- An element whose tag renders a text. -/
  | element {tag : Tag} (children : List Node) (htag : tag.IsSeen) : IsSeen (element tag children)

theorem isBlank_eq_false_iff {cs : List Char} :
    isBlank cs = false ↔ ∃ c ∈ cs, isBlankChar c = false := by
  simp [isBlank]

namespace Tag

/-- The tag renders a text when it asks for an inherited one or names the target of a reference. -/
theorem isSeen_iff {tag : Tag} :
    tag.IsSeen ↔ (tag.name == "inheritdoc" || tag.namesTarget) = true := by
  constructor
  · rintro (hname | ⟨hname, hkey, hvalue, hc, hblank⟩)
    · rw [hname]
      rfl
    · have hreference : Vocabulary.isInlineReference tag.name = true := by
        simp only [List.mem_cons, List.not_mem_nil, or_false] at hname
        rcases hname with h | h | h | h <;> rw [h] <;> decide
      have hgiven := isBlank_eq_false_iff.2 ⟨_, hc, hblank⟩
      rw [Bool.or_eq_true, namesTarget, hreference, Bool.true_and, List.any_eq_true]
      exact Or.inr ⟨_, hkey, by rw [hvalue, Option.any_some, hgiven, Bool.not_false]⟩
  · intro h
    by_cases hname : tag.name = "inheritdoc"
    · exact .inherited hname
    · have htarget : tag.namesTarget = true := by simpa [hname] using h
      obtain ⟨hreference, hany⟩ := Bool.and_eq_true_iff.1 htarget
      obtain ⟨key, hkey, hgiven⟩ := List.any_eq_true.1 hany
      obtain ⟨value, hvalue, hfilled⟩ := (Option.any_eq_true _ _).1 hgiven
      obtain ⟨c, hc, hblank⟩ := isBlank_eq_false_iff.1 (Bool.not_eq_true' _ ▸ hfilled)
      -- Inherited texts are counted among the references, but this tag has another name.
      have hmem : tag.name ∈ ["see", "seealso", "paramref", "typeparamref"] := by
        simpa [Vocabulary.isInlineReference, Vocabulary.inlineReferenceTags, hname] using hreference
      exact .target hmem hkey hvalue hc hblank

/-- Whether a tag renders a text is told by its name and its attributes. -/
theorem IsSeen.congr {tag other : Tag} (h : tag.IsSeen) (hname : other.name = tag.name)
    (hattributes : other.attributes = tag.attributes) : other.IsSeen := by
  cases h with
  | inherited hinherits => exact .inherited (hname.trans hinherits)
  | target hreference hkey hvalue hc hblank =>
    refine .target (hname ▸ hreference) hkey ?_ hc hblank
    rwa [attribute?, hattributes]

end Tag

/-! ## Nodes at any depth -/

namespace Node

/-- The node is one of a list of nodes or stands inside of one of them, at any depth. -/
inductive StandsIn (node : Node) : List Node → Prop
  /-- The node is one of the list. -/
  | here {nodes : List Node} (hnode : node ∈ nodes) : StandsIn node nodes
  /-- The node stands inside of an element of the list. -/
  | inside {tag : Tag} {children nodes : List Node} (helement : element tag children ∈ nodes)
      (hinside : StandsIn node children) : StandsIn node nodes

theorem StandsIn.mono {node : Node} {nodes others : List Node} (h : node.StandsIn nodes)
    (hsubset : nodes ⊆ others) : node.StandsIn others := by
  cases h with
  | here hnode => exact .here (hsubset hnode)
  | inside helement hinside => exact .inside (hsubset helement) hinside

/-- The search goes through the nodes one after the other. -/
theorem anyMeaningful_eq_any (nodes : List Node) : anyMeaningful nodes = nodes.any isMeaningful := by
  induction nodes with
  | nil => rfl
  | cons node nodes ih => rw [anyMeaningful, List.any_cons, ih]

@[simp]
theorem anyMeaningful_append (nodes others : List Node) :
    anyMeaningful (nodes ++ others) = (anyMeaningful nodes || anyMeaningful others) := by
  simp only [anyMeaningful_eq_any, List.any_append]

/-- An element is content when its tag renders a text or there is content inside of it. -/
theorem isMeaningful_element_iff {tag : Tag} {children : List Node} :
    (element tag children).isMeaningful = true ↔ tag.IsSeen ∨ anyMeaningful children = true := by
  rw [isMeaningful, Bool.or_eq_true, ← Tag.isSeen_iff]

theorem isMeaningful_of_isSeen {node : Node} (h : node.IsSeen) : node.isMeaningful = true := by
  cases h with
  | text span hc hblank =>
    rw [isMeaningful, isBlank_eq_false_iff.2 ⟨_, hc, hblank⟩, Bool.not_false]
  | element children htag => exact isMeaningful_element_iff.2 (Or.inl htag)

/-- A node that is seen is found, however deep it stands. -/
theorem anyMeaningful_of_standsIn {node : Node} {nodes : List Node} (h : node.StandsIn nodes)
    (hseen : node.IsSeen) : anyMeaningful nodes = true := by
  rw [anyMeaningful_eq_any, List.any_eq_true]
  induction h with
  | here hnode => exact ⟨node, hnode, isMeaningful_of_isSeen hseen⟩
  | inside helement _ ih =>
    rw [← List.any_eq_true, ← anyMeaningful_eq_any] at ih
    exact ⟨_, helement, isMeaningful_element_iff.2 (Or.inr ih)⟩

mutual

/-- A node that counts as content is seen itself or has a node inside of it that is. -/
theorem exists_isSeen_of_isMeaningful {node : Node} (h : node.isMeaningful = true) :
    ∃ seen : Node, seen.StandsIn [node] ∧ seen.IsSeen := by
  cases node with
  | text span content =>
    obtain ⟨c, hc, hblank⟩ := isBlank_eq_false_iff.1 (Bool.not_eq_true' _ ▸ h)
    exact ⟨_, .here (List.mem_singleton_self _), .text span hc hblank⟩
  | element tag children =>
    rcases isMeaningful_element_iff.1 h with htag | hinside
    · exact ⟨_, .here (List.mem_singleton_self _), .element children htag⟩
    · obtain ⟨seen, hstands, hseen⟩ := exists_isSeen_of_anyMeaningful hinside
      exact ⟨seen, .inside (List.mem_singleton_self _) hstands, hseen⟩

/-- If one of several nodes counts as content, a node that is seen stands among them. -/
theorem exists_isSeen_of_anyMeaningful {nodes : List Node} (h : anyMeaningful nodes = true) :
    ∃ seen : Node, seen.StandsIn nodes ∧ seen.IsSeen := by
  cases nodes with
  | nil => cases h
  | cons node nodes =>
    rcases Bool.or_eq_true_iff.1 h with hnode | hlater
    · obtain ⟨seen, hstands, hseen⟩ := exists_isSeen_of_isMeaningful hnode
      exact ⟨seen, hstands.mono (by simp), hseen⟩
    · obtain ⟨seen, hstands, hseen⟩ := exists_isSeen_of_anyMeaningful hlater
      exact ⟨seen, hstands.mono (List.subset_cons_self node nodes), hseen⟩

end

/-- There is content among nodes exactly if one of the nodes at any depth is seen. -/
theorem anyMeaningful_iff {nodes : List Node} :
    anyMeaningful nodes = true ↔ ∃ seen : Node, seen.StandsIn nodes ∧ seen.IsSeen :=
  ⟨exists_isSeen_of_anyMeaningful, fun ⟨_, hstands, hseen⟩ =>
    anyMeaningful_of_standsIn hstands hseen⟩

/-! ## More nodes -/

/-- The second list holds the nodes of the first and new ones, put in between them and inside of them
at any depth. What stands behind a new node has moved, and an element may end in another way. -/
inductive Grows : List Node → List Node → Prop
  /-- There is nothing. -/
  | nil : Grows [] []
  /-- A new node. -/
  | insert (node : Node) {nodes more : List Node} (hlater : Grows nodes more) :
      Grows nodes (node :: more)
  /-- A text that was there. -/
  | text (span moved : Span) (content : String) {nodes more : List Node}
      (hlater : Grows nodes more) : Grows (text span content :: nodes) (text moved content :: more)
  /-- An element that was there, perhaps with more inside of it. -/
  | element {tag moved : Tag} {children inside nodes more : List Node}
      (hname : moved.name = tag.name) (hattributes : moved.attributes = tag.attributes)
      (hinside : Grows children inside) (hlater : Grows nodes more) :
      Grows (element tag children :: nodes) (element moved inside :: more)

/-- Content that is there stays when more nodes are put in. -/
theorem Grows.anyMeaningful_of_anyMeaningful {nodes more : List Node} (h : Grows nodes more)
    (hcontent : anyMeaningful nodes = true) : anyMeaningful more = true := by
  induction h with
  | nil => exact hcontent
  | insert node _ ih => exact Bool.or_eq_true_iff.2 (Or.inr (ih hcontent))
  | text span moved content _ ih =>
    exact Bool.or_eq_true_iff.2 ((Bool.or_eq_true_iff.1 hcontent).imp id ih)
  | element hname hattributes _ _ ihInside ihLater =>
    refine Bool.or_eq_true_iff.2 ((Bool.or_eq_true_iff.1 hcontent).imp (fun helement => ?_) ihLater)
    rw [isMeaningful_element_iff] at helement ⊢
    exact helement.imp (fun htag => htag.congr hname hattributes) ihInside

/-! ## One more element -/

/-- The second list holds the nodes of the first, some of them that stand side by side, at some depth,
inside of one more element with the given tag. -/
inductive Wraps (wrapper : Tag) : List Node → List Node → Prop
  /-- The element stands around some nodes of the list. -/
  | here (before inside after : List Node) :
      Wraps wrapper (before ++ inside ++ after) (before ++ element wrapper inside :: after)
  /-- The element stands inside of an element of the list. -/
  | inside (before after : List Node) {tag moved : Tag} {children wrapped : List Node}
      (hname : moved.name = tag.name) (hattributes : moved.attributes = tag.attributes)
      (hinside : Wraps wrapper children wrapped) :
      Wraps wrapper (before ++ element tag children :: after)
        (before ++ element moved wrapped :: after)

/-- One more element adds what its tag renders, and what it stands around is content as before. -/
theorem Wraps.anyMeaningful_iff {wrapper : Tag} {nodes wrapped : List Node}
    (h : Wraps wrapper nodes wrapped) :
    anyMeaningful wrapped = true ↔ anyMeaningful nodes = true ∨ wrapper.IsSeen := by
  -- What stands in front of the element and behind it is the same on both sides.
  induction h with
  | here before inside after =>
    simp only [anyMeaningful_append, anyMeaningful, Bool.or_eq_true, isMeaningful_element_iff]
    tauto
  | @inside before after tag moved _ _ hname hattributes _ ih =>
    have htag : moved.IsSeen ↔ tag.IsSeen :=
      ⟨fun h => h.congr hname.symm hattributes.symm, fun h => h.congr hname hattributes⟩
    simp only [anyMeaningful_append, anyMeaningful, Bool.or_eq_true, isMeaningful_element_iff, ih,
      htag]
    tauto

/-! ## Elements taken away -/

mutual

/-- The node without the elements of some tags; what is inside of them is left in their place. -/
def unwrap (drop : Tag → Bool) : Node → List Node
  | text span content => [text span content]
  | element tag children =>
    if drop tag then unwrapAll drop children else [element tag (unwrapAll drop children)]

/-- A list of nodes without the elements of some tags. -/
def unwrapAll (drop : Tag → Bool) : List Node → List Node
  | [] => []
  | node :: nodes => node.unwrap drop ++ unwrapAll drop nodes

end

mutual

/-- Elements whose tags render nothing are no content by themselves. -/
theorem anyMeaningful_unwrap {drop : Tag → Bool} (hdrop : ∀ tag, drop tag = true → ¬tag.IsSeen)
    (node : Node) : anyMeaningful (node.unwrap drop) = node.isMeaningful := by
  cases node with
  | text span content => rw [unwrap, anyMeaningful, anyMeaningful, Bool.or_false]
  | element tag children =>
    have hinside := anyMeaningful_unwrapAll hdrop children
    rw [unwrap]
    split
    · next htag =>
      rw [hinside, Bool.eq_iff_iff, isMeaningful_element_iff]
      exact (or_iff_right (hdrop tag htag)).symm
    · rw [anyMeaningful, anyMeaningful, Bool.or_false, isMeaningful, isMeaningful, hinside]

/-- Without them the nodes hold the same content. -/
theorem anyMeaningful_unwrapAll {drop : Tag → Bool} (hdrop : ∀ tag, drop tag = true → ¬tag.IsSeen)
    (nodes : List Node) : anyMeaningful (unwrapAll drop nodes) = anyMeaningful nodes := by
  cases nodes with
  | nil => rw [unwrapAll]
  | cons node nodes =>
    rw [unwrapAll, anyMeaningful_append, anyMeaningful_unwrap hdrop node,
      anyMeaningful_unwrapAll hdrop nodes, anyMeaningful]

end

end Node

/-! ## The content of an element -/

/-- What decides about the content of an element. -/
structure Element.FindsContent (element : Element) : Prop where
  /-- An element has content if a node inside of it, at any depth, is seen by a reader. -/
  isMeaningful_iff : element.isMeaningful = true ↔
    ∃ node : Node, node.StandsIn element.children ∧ node.IsSeen
  /-- Nodes that are put in, anywhere inside of the element, take no content away. -/
  of_grows : ∀ (tag : Tag) (children : List Node), Node.Grows element.children children →
    element.isMeaningful = true → (Element.mk tag children).isMeaningful = true
  /-- An element that is put around some nodes, anywhere inside of the element, makes no difference
  but for what its own tag renders. -/
  of_wraps : ∀ (tag wrapper : Tag) (children : List Node),
    Node.Wraps wrapper element.children children →
      ((Element.mk tag children).isMeaningful = true ↔
        element.isMeaningful = true ∨ wrapper.IsSeen)

/-- Content is what a reader sees of one node inside of an element, at any depth. -/
theorem Element.findsContent (element : Element) : element.FindsContent where
  isMeaningful_iff := Node.anyMeaningful_iff
  of_grows _ _ hgrows := hgrows.anyMeaningful_of_anyMeaningful
  of_wraps _ _ _ hwraps := hwraps.anyMeaningful_iff

end DocAudit.Markup

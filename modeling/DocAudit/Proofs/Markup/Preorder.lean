import DocAudit.Markup.Forest

/-!
# Elements in document order

The elements of a forest stand in a row, in document order, each with the number of elements around
it. The *number* of an element is its place in that row.

* `Node.map_listedAll`: the row holds the elements of the forest and nothing else;
* `Node.isListedAt_listedAll`: an element is followed by what is inside it;
* `Node.lt_of_deeper`: what follows an element at a greater depth is inside it.
-/

namespace DocAudit.Markup

namespace Node

theorem elementsOfAll_append (xs ys : List Node) :
    elementsOfAll (xs ++ ys) = elementsOfAll xs ++ elementsOfAll ys := by
  induction xs with
  | nil => simp [elementsOfAll]
  | cons node xs ih => simp [elementsOfAll, ih]

mutual

/-- The elements of a node that has `depth` elements around it, in document order, each with the
number of elements around it. -/
def listed (depth : Nat) : Node → List (Nat × Element)
  | text _ _ => []
  | element tag children => (depth, ⟨tag, children⟩) :: listedAll (depth + 1) children

/-- The elements of a list of nodes that have `depth` elements around them. -/
def listedAll (depth : Nat) : List Node → List (Nat × Element)
  | [] => []
  | node :: nodes => node.listed depth ++ listedAll depth nodes

end

@[simp]
theorem listedAll_nil (depth : Nat) : listedAll depth [] = [] := by
  rw [listedAll]

@[simp]
theorem listedAll_append (depth : Nat) (xs ys : List Node) :
    listedAll depth (xs ++ ys) = listedAll depth xs ++ listedAll depth ys := by
  induction xs with
  | nil => simp
  | cons node nodes ih => simp [listedAll, ih]

theorem listedAll_singleton (depth : Nat) (node : Node) :
    listedAll depth [node] = node.listed depth := by
  simp [listedAll]

mutual

/-- Listed with their depths, the elements of a node are its elements. -/
theorem map_listed (depth : Nat) (node : Node) :
    (node.listed depth).map Prod.snd = node.elements := by
  cases node with
  | text span content => simp [listed, elements]
  | element tag children => simp [listed, elements, map_listedAll (depth + 1) children]

/-- Listed with their depths, the elements of a list of nodes are its elements. -/
theorem map_listedAll (depth : Nat) (nodes : List Node) :
    (listedAll depth nodes).map Prod.snd = elementsOfAll nodes := by
  cases nodes with
  | nil => simp [elementsOfAll]
  | cons node nodes =>
    simp only [listedAll, elementsOfAll, List.map_append, map_listed depth node,
      map_listedAll depth nodes]

end

mutual

/-- No element of a node has fewer elements around it than the node. -/
theorem le_of_mem_listed {depth : Nat} {node : Node} {entry : Nat × Element}
    (h : entry ∈ node.listed depth) : depth ≤ entry.1 := by
  cases node with
  | text span content => simp [listed] at h
  | element tag children =>
    rcases List.mem_cons.1 h with rfl | inside
    · exact Nat.le_refl _
    · exact Nat.le_of_succ_le (le_of_mem_listedAll inside)

/-- No element of a list of nodes has fewer elements around it than the nodes. -/
theorem le_of_mem_listedAll {depth : Nat} {nodes : List Node} {entry : Nat × Element}
    (h : entry ∈ listedAll depth nodes) : depth ≤ entry.1 := by
  cases nodes with
  | nil => simp at h
  | cons node nodes =>
    rcases List.mem_append.1 h with first | later
    · exact le_of_mem_listed first
    · exact le_of_mem_listedAll later

end

/-- The first element that is listed has nothing but the given depth around it. -/
theorem depth_of_mem_head?_listedAll {depth : Nat} {nodes : List Node} {entry : Nat × Element}
    (h : entry ∈ (listedAll depth nodes).head?) : entry.1 = depth := by
  induction nodes with
  | nil => simp at h
  | cons node nodes ih =>
    cases node with
    | text span content => exact ih (by simpa [listedAll, listed] using h)
    | element tag children =>
      obtain rfl : (depth, Element.mk tag children) = entry := by simpa [listedAll, listed] using h
      rfl

/-- Where an element stands in a list of elements in document order: what is inside it comes next,
and what comes after that is not inside it. -/
structure IsListedAt (entries : List (Nat × Element)) (number : Nat) (entry : Nat × Element) :
    Prop where
  /-- The elements inside follow at once, and are followed by one that has no more elements around
  it. -/
  split : ∃ before after, before.length = number ∧
    entries = before ++ (entry :: listedAll (entry.1 + 1) entry.2.children ++ after) ∧
    ∀ next ∈ after.head?, next.1 ≤ entry.1

theorem IsListedAt.append {entries more : List (Nat × Element)} {number : Nat}
    {entry : Nat × Element} (h : IsListedAt entries number entry)
    (outside : ∀ next ∈ more.head?, next.1 ≤ entry.1) :
    IsListedAt (entries ++ more) number entry := by
  obtain ⟨before, after, hlength, rfl, hafter⟩ := h.split
  refine ⟨before, after ++ more, hlength, by simp, ?_⟩
  -- What comes after the element is what came before, or the new entries.
  cases after with
  | nil => simpa using outside
  | cons first rest => simpa using hafter

theorem IsListedAt.prepend {entries : List (Nat × Element)} {number : Nat} {entry : Nat × Element}
    (first : List (Nat × Element)) (h : IsListedAt entries number entry) :
    IsListedAt (first ++ entries) (first.length + number) entry := by
  obtain ⟨before, after, hlength, rfl, hafter⟩ := h.split
  exact ⟨first ++ before, after, by simp [hlength], by simp, hafter⟩

mutual

/-- Every element of a node is followed by the elements inside it. -/
theorem isListedAt_listed {depth number : Nat} {node : Node} {entry : Nat × Element}
    (h : (node.listed depth)[number]? = some entry) :
    IsListedAt (node.listed depth) number entry := by
  cases node with
  | text span content => simp [listed] at h
  | element tag children =>
    cases number with
    | zero =>
      obtain rfl : (depth, Element.mk tag children) = entry := by simpa [listed] using h
      exact ⟨[], [], rfl, by simp [listed], by simp⟩
    | succ number =>
      have inside := isListedAt_listedAll (by simpa [listed] using h)
      simpa [listed, Nat.add_comm] using inside.prepend [(depth, ⟨tag, children⟩)]

/-- Every element of a list of nodes is followed by the elements inside it. -/
theorem isListedAt_listedAll {depth number : Nat} {nodes : List Node} {entry : Nat × Element}
    (h : (listedAll depth nodes)[number]? = some entry) :
    IsListedAt (listedAll depth nodes) number entry := by
  cases nodes with
  | nil => simp at h
  | cons node nodes =>
    rw [listedAll] at h ⊢
    rcases Nat.lt_or_ge number (node.listed depth).length with first | later
    · rw [List.getElem?_append_left first] at h
      -- The next node is not inside this one, so its first element ends what is listed here.
      refine (isListedAt_listed h).append ?_
      intro next hnext
      rw [depth_of_mem_head?_listedAll hnext]
      exact le_of_mem_listed (List.mem_of_getElem? h)
    · rw [List.getElem?_append_right later] at h
      simpa [Nat.add_sub_cancel' later] using (isListedAt_listedAll h).prepend (node.listed depth)

end

theorem length_listedAll (depth : Nat) (nodes : List Node) :
    (listedAll depth nodes).length = (elementsOfAll nodes).length := by
  rw [← map_listedAll depth nodes, List.length_map]

/-- What follows an element in document order is first what is inside it. -/
theorem getElem?_elementsOfAll_of_isListedAt {depth number place : Nat} {nodes : List Node}
    {entry : Nat × Element} (h : IsListedAt (listedAll depth nodes) number entry)
    (hplace : place < (elementsOfAll entry.2.children).length) :
    (elementsOfAll nodes)[number + 1 + place]? = (elementsOfAll entry.2.children)[place]? := by
  obtain ⟨before, after, rfl, heq, -⟩ := h.split
  have helements : elementsOfAll nodes =
      before.map Prod.snd ++
        (entry.2 :: elementsOfAll entry.2.children ++ after.map Prod.snd) := by
    rw [← map_listedAll depth nodes, heq]
    simp [map_listedAll]
  rw [helements, Nat.add_assoc, Nat.add_comm 1, List.getElem?_append_right (by simp)]
  simp only [List.length_map, Nat.add_sub_cancel_left, List.cons_append, List.getElem?_cons_succ]
  exact List.getElem?_append_left hplace

/-- An element that comes after another in document order, with only deeper ones in between, is
inside it. -/
theorem lt_of_deeper {depth outer inner : Nat} {nodes : List Node} {entry : Nat × Element}
    (h : IsListedAt (listedAll depth nodes) outer entry)
    (exists_inner : inner < (listedAll depth nodes).length)
    (deeper : ∀ number next, outer < number → number ≤ inner →
      (listedAll depth nodes)[number]? = some next → entry.1 < next.1) :
    inner < outer + 1 + (elementsOfAll entry.2.children).length := by
  obtain ⟨before, after, rfl, heq, hafter⟩ := h.split
  refine Nat.lt_of_not_le ?_
  intro hout
  -- The element right after the inside of the outer one would not be deeper.
  have hnext : (listedAll depth nodes)[before.length + 1 +
      (elementsOfAll entry.2.children).length]? = after.head? := by
    rw [heq, Nat.add_assoc, Nat.add_comm 1, List.getElem?_append_right (by simp),
      Nat.add_sub_cancel_left, List.cons_append, List.getElem?_cons_succ,
      List.getElem?_append_right (by simp [length_listedAll]), length_listedAll, Nat.sub_self,
      List.head?_eq_getElem?]
  obtain ⟨next, hget⟩ : ∃ next, after.head? = some next :=
    ⟨_, hnext.symm.trans (List.getElem?_eq_getElem (by omega))⟩
  have hdeeper := deeper _ next (by omega) (by omega) (hnext.trans hget)
  have hnot := hafter next hget
  omega

end Node
end DocAudit.Markup

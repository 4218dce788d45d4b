import DocAudit.Declaration.Collect
import DocAudit.Proofs.Code.Tree

/-!
# Where declarations are made

The search for declarations looks at every place of a tree but those inside members.

* `Place.declaration?`: the declaration made at a place;
* `collect_eq_filterMap_places`: the search gives the declarations made at the places of a tree;
* `Code.SourceFile.map_some_declarations`: the declarations of a file and where each one is made.
-/

namespace DocAudit

open Code

namespace Declaration

/-- The node makes a declaration whose inside holds no further ones. -/
def isMember (source : List Char) (node : Node) : Bool :=
  (form? source node).any fun form => !form.isContainer

end Declaration

/-- The declaration made at a place: none inside a member. -/
def Code.Place.declaration? (source : List Char) (place : Place) : Option Declaration :=
  if place.ancestors.any (Declaration.isMember source) then none
  else Declaration.ofNode? source place.earlier place.node

namespace Declaration

variable {source : List Char}

theorem isSearched_ofNode? (earlier : List Node) (node : Node) :
    isSearched (ofNode? source earlier node) = !isMember source node := by
  rw [ofNode?, isMember]
  cases form? source node with
  | none => rfl
  | some form => simp [isSearched]

mutual

/-- Nothing is declared inside a member. -/
theorem filterMap_places_of_member {ancestors : List Node} (earlier : List Node) (node : Node)
    (h : ancestors.any (isMember source) = true) :
    (node.places ancestors earlier).filterMap (Place.declaration? source) = [] := by
  cases node with
  | mk label children =>
    have hancestors : (Node.mk label children :: ancestors).any (isMember source) = true := by
      rw [List.any_cons, h, Bool.or_true]
    rw [Node.places, List.filterMap_cons_none (by rw [Place.declaration?, if_pos h])]
    exact filterMap_placesAmong_of_member [] children hancestors

/-- Nothing is declared by siblings inside a member. -/
theorem filterMap_placesAmong_of_member {ancestors : List Node} (earlier nodes : List Node)
    (h : ancestors.any (isMember source) = true) :
    (Node.placesAmong ancestors earlier nodes).filterMap (Place.declaration? source) = [] := by
  cases nodes with
  | nil => rfl
  | cons node nodes =>
    rw [Node.placesAmong, List.filterMap_append, filterMap_places_of_member earlier node h,
      filterMap_placesAmong_of_member (node :: earlier) nodes h, List.append_nil]

end

mutual

/-- The declarations found in a tree outside of all members are those made at its places. -/
theorem collect_eq_filterMap_places {ancestors : List Node} (earlier : List Node) (node : Node)
    (h : ancestors.any (isMember source) = false) :
    collect source earlier node =
      (node.places ancestors earlier).filterMap (Place.declaration? source) := by
  cases node with
  | mk label children =>
    have hmade : Place.declaration? source ⟨ancestors, earlier, .mk label children⟩ =
        ofNode? source earlier (.mk label children) := by
      rw [Place.declaration?, h]
      rfl
    rw [collect, isSearched_ofNode?, Node.places, List.filterMap_cons, hmade]
    have hinside : (if (!isMember source (.mk label children)) = true
          then collectAmong source [] children else []) =
        (Node.placesAmong (.mk label children :: ancestors) [] children).filterMap
          (Place.declaration? source) := by
      -- A member is not searched, and what is inside it declares nothing.
      by_cases hmember : isMember source (.mk label children) = true
      · rw [if_neg (by simp [hmember])]
        exact (filterMap_placesAmong_of_member [] children (by simp [hmember])).symm
      · rw [if_pos (by simp [hmember])]
        exact collectAmong_eq_filterMap_placesAmong [] children (by simp [hmember, h])
    rw [hinside]
    cases ofNode? source earlier (.mk label children) <;> rfl

/-- The declarations found among siblings outside of all members are those made at their places. -/
theorem collectAmong_eq_filterMap_placesAmong {ancestors : List Node} (earlier nodes : List Node)
    (h : ancestors.any (isMember source) = false) :
    collectAmong source earlier nodes =
      (Node.placesAmong ancestors earlier nodes).filterMap (Place.declaration? source) := by
  cases nodes with
  | nil => rfl
  | cons node nodes =>
    rw [collectAmong, Node.placesAmong, List.filterMap_append,
      collect_eq_filterMap_places earlier node h,
      collectAmong_eq_filterMap_placesAmong (node :: earlier) nodes h]

end

/-- A comment declares nothing. -/
theorem isComment_of_declaration? {place : Place} {declaration : Declaration}
    (h : place.declaration? source = some declaration) : place.node.isComment = false := by
  rw [Place.declaration?] at h
  split at h
  · cases h
  · rw [← Bool.not_eq_true]
    intro hcomment
    have hkind : place.node.kind = "comment" := beq_iff_eq.1 hcomment
    have hform : form? source place.node = none := by
      rw [form?, hkind]
      rfl
    rw [ofNode?, hform] at h
    cases h

theorem node_of_declaration? {place : Place} {declaration : Declaration}
    (h : place.declaration? source = some declaration) :
    declaration.node = place.node ∧ declaration.doc = DocComment.before? source place.earlier := by
  rw [Place.declaration?] at h
  split at h
  · cases h
  · obtain ⟨form, -, rfl⟩ := Option.map_eq_some_iff.1 h
    exact ⟨rfl, rfl⟩

end Declaration

/-- The places where the declarations of a file are made. -/
def Code.SourceFile.declarationPlaces (file : SourceFile) : List Place :=
  (file.root.places [] []).filter fun place => (place.declaration? file.text).isSome

theorem map_some_filterMap {α β : Type} {f : α → Option β} {xs : List α}
    (h : ∀ x ∈ xs, (f x).isSome = true) : (xs.filterMap f).map some = xs.map f := by
  induction xs with
  | nil => rfl
  | cons x xs ih =>
    obtain ⟨y, hy⟩ := Option.isSome_iff_exists.1 (h x List.mem_cons_self)
    rw [List.filterMap_cons_some hy, List.map_cons, List.map_cons, hy,
      ih fun later hlater => h later (List.mem_cons_of_mem _ hlater)]

/-- Every declaration of a file is made at one of its places. -/
theorem Code.SourceFile.map_some_declarations (file : SourceFile) :
    file.declarations.map some =
      file.declarationPlaces.map (Place.declaration? file.text) := by
  have hdeclarations : file.declarations =
      file.declarationPlaces.filterMap (Place.declaration? file.text) := by
    rw [declarations, Declaration.collect_eq_filterMap_places [] file.root List.any_nil,
      declarationPlaces, List.filterMap_filter]
    apply congrArg fun f => List.filterMap f _
    ext place
    cases place.declaration? file.text <;> rfl
  rw [hdeclarations]
  exact map_some_filterMap fun place hplace => (List.mem_filter.1 hplace).2

end DocAudit

import DocAudit.Proofs.Declaration.Enumeration

/-!
# What is enumerated

Which nodes of a tree are declarations depends on their kinds and on the kinds of the nodes around
them, and on nothing else: a node of a kind that can be documented is one, unless a member stands
around it. The places a declaration is reported at stand inside of its node.

* `containerKinds` and `memberKinds`: the kinds of nodes that make declarations;
* `Place.IsDeclared`: such a node, with no member around it;
* `Node.IsInOrder`: the children of every node follow one another;
* `Declaration.pairwise_nameNodes`: the declared names stand in the order of the text;
* `Code.SourceFile.enumeratesDeclarations`: the declarations of a file are the nodes at these places,
  in the order of the text.
-/

namespace DocAudit

open Code Text

/-- All over the tree, the children of a node follow one another without overlap. -/
def Code.Node.IsInOrder (root : Node) : Prop :=
  ∀ node ∈ root.preorder, node.children.Pairwise fun child later => child.stop ≤ later.start

namespace Declaration

/-- The kinds of nodes that declare something and are searched for further declarations. -/
def containerKinds : List String :=
  ["namespace_declaration", "file_scoped_namespace_declaration", "class_declaration",
    "struct_declaration", "interface_declaration", "record_declaration",
    "record_struct_declaration", "enum_declaration"]

/-- The kinds of nodes that declare something and are not searched. -/
def memberKinds : List String :=
  ["method_declaration", "constructor_declaration", "property_declaration", "field_declaration",
    "event_declaration", "event_field_declaration", "enum_member_declaration",
    "delegate_declaration", "operator_declaration", "conversion_operator_declaration",
    "indexer_declaration"]

variable {source : List Char} {node : Node}

theorem isSome_form?_iff (source : List Char) (node : Node) :
    (form? source node).isSome = true ↔ node.kind ∈ containerKinds ++ memberKinds := by
  rw [form?]
  split <;> simp_all [containerKinds, memberKinds]

/-- The kind of a node decides whether its inside is searched. -/
theorem isMember_iff : isMember source node = true ↔ node.kind ∈ memberKinds := by
  rw [isMember, form?]
  split <;> simp_all [memberKinds, DeclarationForm.isContainer]

theorem parameters?_of_form? {form : DeclarationForm} {names : List DeclaredName}
    (h : form? source node = some form) (hnames : form.parameters? = some names) :
    names = parametersOf source node := by
  rw [form?] at h
  split at h <;> cases h <;> cases hnames <;> rfl

theorem typeParameters?_of_form? {form : DeclarationForm} {names : List DeclaredName}
    (h : form? source node = some form) (hnames : form.typeParameters? = some names) :
    names = typeParametersOf source node := by
  rw [form?] at h
  split at h <;> cases h <;> cases hnames <;> rfl

theorem mem_preorder_of_find? {p : Node → Bool} {child : Node}
    (h : node.children.find? p = some child) : child ∈ node.preorder :=
  (Node.preorder_sublist_of_mem_children (List.mem_of_find?_eq_some h)).subset
    child.self_mem_preorder

theorem mem_preorder_of_nameNode? {nameNode : Node} (h : nameNode? node = some nameNode) :
    nameNode ∈ node.preorder := by
  rcases Option.or_eq_some_iff.1 h with h | ⟨-, h⟩
  · exact mem_preorder_of_find? h
  · exact mem_preorder_of_find? h

theorem mem_preorder_of_declarator? {nameNode : Node}
    (h : (declarator? node).bind nameNode? = some nameNode) : nameNode ∈ node.preorder := by
  obtain ⟨declarator, hdeclarator, hname⟩ := Option.bind_eq_some_iff.1 h
  obtain ⟨list, hlist, hdeclarator⟩ := Option.bind_eq_some_iff.1 hdeclarator
  have hinner := Node.preorder_sublist_of_mem_children (List.mem_of_find?_eq_some hdeclarator)
  have houter := Node.preorder_sublist_of_mem_children (List.mem_of_find?_eq_some hlist)
  exact houter.subset (hinner.subset (mem_preorder_of_nameNode? hname))

theorem exists_start_of_nameAt {found : Option Node}
    (h : ∀ nameNode, found = some nameNode → nameNode ∈ node.preorder) :
    ∃ inner ∈ node.preorder, (nameAt source node found).2 = inner.start := by
  cases found with
  | none => exact ⟨node, node.self_mem_preorder, rfl⟩
  | some nameNode => exact ⟨nameNode, h nameNode rfl, rfl⟩

theorem exists_start_of_anchorAt (kind : String) (node : Node) :
    ∃ inner ∈ node.preorder, anchorAt kind node = inner.start := by
  rw [anchorAt]
  cases h : node.childOfKind? kind with
  | none => exact ⟨node, node.self_mem_preorder, rfl⟩
  | some child => exact ⟨child, mem_preorder_of_find? h, rfl⟩

/-- A declaration is reported where one of the nodes of its tree starts. -/
theorem exists_start_of_nameAndAnchor (source : List Char) (node : Node) (kind : MemberKind) :
    ∃ inner ∈ node.preorder, (nameAndAnchor source node kind).2 = inner.start := by
  fun_cases nameAndAnchor source node kind
  · exact exists_start_of_nameAt fun _ => mem_preorder_of_declarator?
  · exact exists_start_of_nameAt fun _ => mem_preorder_of_declarator?
  · exact exists_start_of_anchorAt _ node
  · exact exists_start_of_anchorAt _ node
  · exact exists_start_of_anchorAt _ node
  · exact exists_start_of_nameAt fun _ => mem_preorder_of_nameNode?

/-- The node a parameter is declared by, unless it is blank. -/
def declaringNode? (source : List Char) (node : Node) : Option Node :=
  (parameterNameNode? node).filter fun nameNode => !(trim (nameNode.text source)).isEmpty

/-- The name a node declares. -/
def nameOf (source : List Char) (nameNode : Node) : DeclaredName :=
  ⟨String.ofList (trim (nameNode.text source)), nameNode.start⟩

theorem declaredName?_eq (source : List Char) (node : Node) :
    declaredName? source node = (declaringNode? source node).map (nameOf source) := by
  rw [declaredName?, declaringNode?]
  cases parameterNameNode? node with
  | none => rfl
  | some nameNode =>
    by_cases hblank : trim (nameNode.text source) = [] <;> simp [Option.filter, hblank, nameOf]

theorem mem_preorder_of_declaringNode? {nameNode : Node}
    (h : declaringNode? source node = some nameNode) : nameNode ∈ node.preorder := by
  have hnode := (Option.filter_eq_some_iff.1 h).1
  rcases Option.or_eq_some_iff.1 hnode with hnode | ⟨-, hnode⟩
  · rcases Option.or_eq_some_iff.1 hnode with hnode | ⟨-, hnode⟩
    · exact mem_preorder_of_find? hnode
    · have hmem := (List.mem_filter.1 (List.mem_of_getLast? hnode)).1
      exact (Node.preorder_sublist_of_mem_children hmem).subset nameNode.self_mem_preorder
  · split at hnode
    · obtain rfl := Option.some.inj hnode
      exact node.self_mem_preorder
    · cases hnode

/-- A node with a name has text. -/
theorem start_lt_stop_of_declaringNode? {nameNode : Node}
    (h : declaringNode? source node = some nameNode) : nameNode.start < nameNode.stop := by
  have hname := (Option.filter_eq_some_iff.1 h).2
  rw [← Nat.not_le]
  intro hle
  have htext : nameNode.text source = [] := by
    rw [Node.text, slice, Nat.sub_eq_zero_of_le hle, takeBytes]
  rw [htext] at hname
  cases hname

/-- The nodes that declare the names of a list, one child after the other. -/
def nameNodes (source : List Char) (kinds : List String) (list : Option Node) : List Node :=
  match list with
  | none => []
  | some list =>
    (list.children.filter fun child => kinds.contains child.kind).filterMap (declaringNode? source)

theorem declaredNames_eq (source : List Char) (kinds : List String) (list : Option Node) :
    declaredNames source kinds list = (nameNodes source kinds list).map (nameOf source) := by
  cases list with
  | none => rfl
  | some list =>
    simp only [declaredNames, nameNodes, List.map_filterMap]
    exact congrArg (List.filterMap · _) (funext (declaredName?_eq source))

/-- Nodes found in the trees of a list, one in each at most, stand in the order of the trees. -/
theorem filterMap_sublist_preorderOfAll {f : Node → Option Node}
    (hf : ∀ node inner, f node = some inner → inner ∈ node.preorder) (nodes : List Node) :
    (nodes.filterMap f).Sublist (Node.preorderOfAll nodes) := by
  induction nodes with
  | nil => exact List.Sublist.slnil
  | cons node nodes ih =>
    rw [Node.preorderOfAll]
    cases hfound : f node with
    | none =>
      rw [List.filterMap_cons_none hfound]
      exact ih.trans (List.sublist_append_right _ _)
    | some inner =>
      rw [List.filterMap_cons_some hfound]
      exact (List.singleton_sublist.2 (hf node inner hfound)).append ih

variable {kinds : List String} {list : Option Node}

/-- The nodes that declare the names of a list inside a node stand in the order of the tree. -/
theorem nameNodes_sublist_preorder (hlist : ∀ found, list = some found → found ∈ node.children) :
    (nameNodes source kinds list).Sublist node.preorder := by
  cases list with
  | none => exact List.nil_sublist _
  | some list =>
    have hnodes : (nameNodes source kinds (some list)).Sublist
        (list.children.filterMap (declaringNode? source)) := List.filter_sublist.filterMap _
    have hbelow : (list.children.filterMap (declaringNode? source)).Sublist list.preorder := by
      rw [Node.preorder_eq list]
      exact (filterMap_sublist_preorderOfAll (fun _ _ => mem_preorder_of_declaringNode?) _).cons _
    exact (hnodes.trans hbelow).trans (Node.preorder_sublist_of_mem_children (hlist list rfl))

/-- So do their starts in the text, if the children of the list follow one another. -/
theorem pairwise_nameNodes (hlist : ∀ found, list = some found → found ∈ node.children)
    (henclosing : node.IsEnclosing) (horder : node.IsInOrder) :
    (nameNodes source kinds list).Pairwise fun nameNode later => nameNode.start < later.start := by
  cases list with
  | none => exact List.Pairwise.nil
  | some list =>
    have hmem : list ∈ node.preorder :=
      (Node.preorder_sublist_of_mem_children (hlist list rfl)).subset list.self_mem_preorder
    rw [nameNodes, List.pairwise_filterMap]
    refine ((horder list hmem).sublist List.filter_sublist).imp_of_mem ?_
    intro child later hchild hlater happart nameNode hname laterName hlaterName
    have hbelow (child : Node) (hchild : child ∈ list.children) : child.IsEnclosing :=
      (henclosing.of_mem_preorder hmem).of_mem_preorder
        ((Node.preorder_sublist_of_mem_children hchild).subset child.self_mem_preorder)
    have hinside := (hbelow child (List.mem_filter.1 hchild).1).inside_of_mem_preorder
      (mem_preorder_of_declaringNode? hname)
    have hinsideLater := (hbelow later (List.mem_filter.1 hlater).1).inside_of_mem_preorder
      (mem_preorder_of_declaringNode? hlaterName)
    -- A name has text, which ends before the next child begins.
    calc nameNode.start < nameNode.stop := start_lt_stop_of_declaringNode? hname
      _ ≤ child.stop := hinside.2
      _ ≤ later.start := happart
      _ ≤ laterName.start := hinsideLater.1

/-- The names stand inside of a node, in the order of the text. -/
structure AreNamesIn (source : List Char) (node : Node) (names : List DeclaredName) : Prop where
  /-- They are the names of nodes, in the order of the tree. -/
  exists_nodes : ∃ nodes : List Node, nodes.Sublist node.preorder ∧ names = nodes.map (nameOf source)
  /-- They stand inside of the node. -/
  inside : node.IsEnclosing →
    ∀ name ∈ names, node.start ≤ name.position ∧ name.position ≤ node.stop
  /-- Each stands in front of the later ones. -/
  pairwise : node.IsEnclosing → node.IsInOrder →
    names.Pairwise fun name later => name.position < later.position

theorem start_mem_of_mem_preorder {inner : Node} (h : node.IsEnclosing) (hmem : inner ∈ node.preorder) :
    node.start ≤ inner.start ∧ inner.start ≤ node.stop := by
  have hinside := h.inside_of_mem_preorder hmem
  exact ⟨hinside.1, Nat.le_trans (h inner hmem).1 hinside.2⟩

theorem areNamesIn_declaredNames (hlist : ∀ found, list = some found → found ∈ node.children) :
    AreNamesIn source node (declaredNames source kinds list) := by
  rw [declaredNames_eq]
  have hsublist : (nameNodes source kinds list).Sublist node.preorder :=
    nameNodes_sublist_preorder hlist
  refine ⟨⟨_, hsublist, rfl⟩, fun henclosing name hname => ?_, fun henclosing horder => ?_⟩
  · obtain ⟨nameNode, hnameNode, rfl⟩ := List.mem_map.1 hname
    exact start_mem_of_mem_preorder henclosing (hsublist.subset hnameNode)
  · exact List.pairwise_map.2 (pairwise_nameNodes hlist henclosing horder)

theorem areNamesIn_parametersOf (source : List Char) (node : Node) :
    AreNamesIn source node (parametersOf source node) :=
  areNamesIn_declaredNames fun _ hfound => List.mem_of_find?_eq_some hfound

theorem areNamesIn_typeParametersOf (source : List Char) (node : Node) :
    AreNamesIn source node (typeParametersOf source node) := by
  refine areNamesIn_declaredNames fun found hfound => ?_
  rcases Option.or_eq_some_iff.1 hfound with hfound | ⟨-, hfound⟩ <;>
    exact List.mem_of_find?_eq_some hfound

/-- The names are the parameters or the type parameters of the declaration. -/
def Lists (declaration : Declaration) (names : List DeclaredName) : Prop :=
  declaration.form.parameters? = some names ∨ declaration.form.typeParameters? = some names

variable {earlier : List Node} {declaration : Declaration}

theorem node_of_ofNode? (h : ofNode? source earlier node = some declaration) :
    declaration.node = node := by
  obtain ⟨form, -, rfl⟩ := Option.map_eq_some_iff.1 h
  rfl

theorem areNamesIn_of_ofNode? {names : List DeclaredName}
    (h : ofNode? source earlier node = some declaration) (hnames : declaration.Lists names) :
    AreNamesIn source node names := by
  obtain ⟨form, hform, rfl⟩ := Option.map_eq_some_iff.1 h
  rcases hnames with hnames | hnames
  · rw [parameters?_of_form? hform hnames]
    exact areNamesIn_parametersOf source node
  · rw [typeParameters?_of_form? hform hnames]
    exact areNamesIn_typeParametersOf source node

theorem anchor_mem_of_ofNode? (h : ofNode? source earlier node = some declaration)
    (henclosing : node.IsEnclosing) :
    node.start ≤ declaration.anchor ∧ declaration.anchor ≤ node.stop := by
  obtain ⟨form, -, rfl⟩ := Option.map_eq_some_iff.1 h
  obtain ⟨inner, hinner, hanchor⟩ :=
    exists_start_of_nameAndAnchor source node form.kind
  simp only [hanchor]
  exact start_mem_of_mem_preorder henclosing hinner

end Declaration

/-- A node of a kind that can be documented, with no member around it. -/
structure Code.Place.IsDeclared (place : Place) : Prop where
  /-- The node makes a declaration. -/
  kind_mem : place.node.kind ∈ Declaration.containerKinds ++ Declaration.memberKinds
  /-- Around it stand namespaces, types, and nodes that make no declaration. -/
  outside : ∀ outer ∈ place.ancestors, outer.kind ∉ Declaration.memberKinds

namespace Code.Place

theorem isDeclared_iff (place : Place) : place.IsDeclared ↔
    place.node.kind ∈ Declaration.containerKinds ++ Declaration.memberKinds ∧
      ∀ outer ∈ place.ancestors, outer.kind ∉ Declaration.memberKinds :=
  ⟨fun h => ⟨h.kind_mem, h.outside⟩, fun h => ⟨h.1, h.2⟩⟩

instance (place : Place) : Decidable place.IsDeclared :=
  decidable_of_iff' _ place.isDeclared_iff

variable {source : List Char} {place : Place}

theorem any_isMember_eq_false_iff (source : List Char) (place : Place) :
    place.ancestors.any (Declaration.isMember source) = false ↔
      ∀ outer ∈ place.ancestors, outer.kind ∉ Declaration.memberKinds := by
  simp only [List.any_eq_false, Declaration.isMember_iff]

theorem isSome_declaration?_iff (source : List Char) (place : Place) :
    (place.declaration? source).isSome = true ↔ place.IsDeclared := by
  rw [isDeclared_iff, ← any_isMember_eq_false_iff source, ← Bool.not_eq_true,
    ← Declaration.isSome_form?_iff source, declaration?]
  split <;> simp [Declaration.ofNode?, *]

theorem declaration?_of_isDeclared (h : place.IsDeclared) :
    place.declaration? source = Declaration.ofNode? source place.earlier place.node := by
  rw [declaration?, if_neg (Bool.not_eq_true _ ▸ (any_isMember_eq_false_iff source place).2 h.outside)]

end Code.Place

namespace Code.SourceFile

/-- The places of a file where something is declared. -/
theorem declarationPlaces_eq (file : SourceFile) :
    file.declarationPlaces = (file.root.places [] []).filter (Place.IsDeclared ·) := by
  rw [declarationPlaces]
  refine List.filter_congr fun place _ => ?_
  rw [Bool.eq_iff_iff, Place.isSome_declaration?_iff, decide_eq_true_iff]

/-- The declarations of a file are those its nodes make. -/
theorem map_some_declarations_eq (file : SourceFile) :
    file.declarations.map some = ((file.root.places [] []).filter (Place.IsDeclared ·)).map
      fun place => Declaration.ofNode? file.text place.earlier place.node := by
  rw [map_some_declarations, declarationPlaces_eq]
  refine List.map_congr_left fun place hplace => ?_
  exact Place.declaration?_of_isDeclared (decide_eq_true_iff.1 (List.mem_filter.1 hplace).2)

/-- Each of them is made at a place where something is declared. -/
theorem exists_place_of_mem_declarations {file : SourceFile} {declaration : Declaration}
    (h : declaration ∈ file.declarations) :
    ∃ place ∈ file.root.places [] [],
      Declaration.ofNode? file.text place.earlier place.node = some declaration := by
  have hsome := List.mem_map_of_mem (f := some) h
  rw [map_some_declarations_eq] at hsome
  obtain ⟨place, hplace, hmade⟩ := List.mem_map.1 hsome
  exact ⟨place, (List.mem_filter.1 hplace).1, hmade⟩

theorem mem_preorder_of_mem_declarations {file : SourceFile} {declaration : Declaration}
    (h : declaration ∈ file.declarations) : declaration.node ∈ file.root.preorder := by
  obtain ⟨place, hplace, hmade⟩ := exists_place_of_mem_declarations h
  rw [Declaration.node_of_ofNode? hmade, ← Node.map_node_places [] [] file.root]
  exact List.mem_map_of_mem hplace

/-- The nodes of the declarations of a file. -/
theorem map_node_declarations (file : SourceFile) :
    file.declarations.map Declaration.node =
      ((file.root.places [] []).filter (Place.IsDeclared ·)).map Place.node := by
  apply List.map_injective_iff.2 fun _ _ => Option.some.inj
  calc (file.declarations.map Declaration.node).map some
      = (file.declarations.map some).map (Option.map Declaration.node) := by
        rw [List.map_map, List.map_map]
        rfl
    _ = ((file.root.places [] []).filter (Place.IsDeclared ·)).map fun place =>
          (Declaration.ofNode? file.text place.earlier place.node).map Declaration.node := by
        rw [map_some_declarations_eq, List.map_map]
        rfl
    _ = (((file.root.places [] []).filter (Place.IsDeclared ·)).map Place.node).map some := by
        rw [List.map_map]
        refine List.map_congr_left fun place hplace => ?_
        have hdeclared : place.IsDeclared := decide_eq_true_iff.1 (List.mem_filter.1 hplace).2
        -- A node of such a kind makes a declaration.
        obtain ⟨declaration, hmade⟩ := Option.isSome_iff_exists.1
          ((Place.isSome_declaration?_iff file.text place).2 hdeclared)
        rw [Place.declaration?_of_isDeclared hdeclared] at hmade
        rw [hmade, Option.map_some, Declaration.node_of_ofNode? hmade, Function.comp_apply]

/-- The declarations of a file are the nodes of documentable kinds outside of members. -/
structure EnumeratesDeclarations (file : SourceFile) : Prop where
  /-- One declaration is listed for each place where something is declared, in the order of the
  text, -/
  map_node_eq : file.declarations.map Declaration.node =
    ((file.root.places [] []).filter (Place.IsDeclared ·)).map Place.node
  /-- and it is the one the node makes. -/
  map_some_eq : file.declarations.map some =
    ((file.root.places [] []).filter (Place.IsDeclared ·)).map
      fun place => Declaration.ofNode? file.text place.earlier place.node
  /-- The places are those of all nodes of the tree, in the order of the text, -/
  map_node_places : (file.root.places [] []).map Place.node = file.root.preorder
  /-- and around each of them stand the nodes that have it below them. -/
  liesBelow : ∀ place ∈ file.root.places [] [], place.LiesBelow file.root
  /-- If the nodes of the tree stand inside of their parents, a declaration is reported inside of its
  node. -/
  anchor_mem : file.root.IsEnclosing → ∀ declaration ∈ file.declarations,
    declaration.node.start ≤ declaration.anchor ∧ declaration.anchor ≤ declaration.node.stop
  /-- So are its parameters and its type parameters. -/
  position_mem : file.root.IsEnclosing → ∀ declaration ∈ file.declarations, ∀ names,
    declaration.Lists names → ∀ name ∈ names,
      declaration.node.start ≤ name.position ∧ name.position ≤ declaration.node.stop
  /-- They are the names of nodes inside of the declaration, in the order of the tree. -/
  exists_nodes : ∀ declaration ∈ file.declarations, ∀ names, declaration.Lists names →
    ∃ nodes : List Node, nodes.Sublist declaration.node.preorder ∧
      names = nodes.map (Declaration.nameOf file.text)
  /-- If the children of a node follow one another, each name stands in front of the later ones. -/
  pairwise_position : file.root.IsEnclosing → file.root.IsInOrder →
    ∀ declaration ∈ file.declarations, ∀ names, declaration.Lists names →
      names.Pairwise fun name later => name.position < later.position

/-- Declarations are enumerated exactly, whatever the tree. -/
theorem enumeratesDeclarations (file : SourceFile) : file.EnumeratesDeclarations := by
  have hnames : ∀ declaration ∈ file.declarations, ∀ names, declaration.Lists names →
      Declaration.AreNamesIn file.text declaration.node names := by
    intro declaration hmem names hlists
    obtain ⟨place, -, hmade⟩ := exists_place_of_mem_declarations hmem
    rw [Declaration.node_of_ofNode? hmade]
    exact Declaration.areNamesIn_of_ofNode? hmade hlists
  refine ⟨file.map_node_declarations, file.map_some_declarations_eq, Node.map_node_places [] [] _,
    fun _ => Node.liesBelow_of_mem_places, ?anchor, ?position, ?names, ?order⟩
  case anchor =>
    intro henclosing declaration hmem
    have hnode := henclosing.of_mem_preorder (mem_preorder_of_mem_declarations hmem)
    obtain ⟨place, -, hmade⟩ := exists_place_of_mem_declarations hmem
    rw [Declaration.node_of_ofNode? hmade] at hnode ⊢
    exact Declaration.anchor_mem_of_ofNode? hmade hnode
  case position =>
    intro henclosing declaration hmem names hlists
    exact (hnames declaration hmem names hlists).inside
      (henclosing.of_mem_preorder (mem_preorder_of_mem_declarations hmem))
  case names =>
    exact fun declaration hmem names hlists => (hnames declaration hmem names hlists).exists_nodes
  case order =>
    intro henclosing horder declaration hmem names hlists
    have hbelow := mem_preorder_of_mem_declarations hmem
    exact (hnames declaration hmem names hlists).pairwise (henclosing.of_mem_preorder hbelow)
      fun node hnode => horder node ((Node.preorder_sublist_of_mem_preorder hbelow).subset hnode)

/-- What stands below a node that does not fit the language is declared, even in a class; what stands
in a method is not. -/
example :
    let node (kind : String) : Node := .mk ⟨kind, true, false, 0, 0, none⟩ []
    Place.IsDeclared ⟨[node "ERROR", node "class_declaration"], [], node "field_declaration"⟩ ∧
      ¬Place.IsDeclared ⟨[node "block", node "method_declaration"], [], node "class_declaration"⟩ := by
  decide

end Code.SourceFile

end DocAudit

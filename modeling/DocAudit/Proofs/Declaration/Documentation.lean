import DocAudit.Proofs.Comment.Lines
import DocAudit.Proofs.Comment.Runs
import DocAudit.Proofs.Declaration.Enumeration

/-!
# Declarations and their doc comments

The doc comment of a declaration is found by walking back from its node, the doc comments of a file
by walking over the whole tree. The two agree: what a declaration carries is one of the doc comments
of the file, and no other declaration carries any part of it.

* `Code.SourceFile.docRuns`: the comments that the doc comments of a file are made of;
* `DocsAgree`: what the two walks have to do with each other;
* `Code.SourceFile.docsAgree`: they agree on every tree that fits its text.
-/

namespace DocAudit

open Code

/-- The comments that the doc comments of a file are made of, one run for each of them. -/
def Code.SourceFile.docRuns (file : SourceFile) : List (List Node) :=
  Comment.runsBelow file.text file.root

namespace Code.Place

/-- The comments directly in front of a place, in the order of the text. -/
def commentsBefore (place : Place) : List Node :=
  (place.earlier.takeWhile Node.isComment).reverse

/-- The doc comments directly in front of a place, in the order of the text. -/
def docNodes (source : List Char) (place : Place) : List Node :=
  place.commentsBefore.filter fun comment => Comment.isDocText (comment.text source)

theorem runBefore_earlier (source : List Char) (place : Place) :
    Comment.runBefore source place.earlier = place.docNodes source := by
  rw [docNodes, commentsBefore, List.filter_reverse, Comment.runBefore]

end Code.Place

namespace DocComment

/-- Comments that follow one another make a doc comment that spans them. -/
theorem exists_ofNodes? (source : List Char) {run : List Node} (hne : run ≠ []) :
    ∃ doc, ofNodes? source run = some doc ∧ doc.start = (run.head hne).start ∧
      doc.stop = (run.getLast hne).stop :=
  ⟨_, ofNodes?_eq_some source hne, rfl, rfl⟩

theorem isSome_ofNodes?_iff {source : List Char} {run : List Node} :
    (ofNodes? source run).isSome = true ↔ run ≠ [] := by
  constructor
  · rintro hsome rfl
    cases hsome
  · intro hne
    obtain ⟨doc, hdoc, -⟩ := exists_ofNodes? source hne
    rw [hdoc]
    rfl

end DocComment

/-- The doc comments of a file and those of its declarations agree. -/
structure DocsAgree (file : SourceFile) : Prop where
  /-- The declarations of the file are those made at its places, one at each of them. -/
  declarations_eq :
    file.declarations.map some = file.declarationPlaces.map (Place.declaration? file.text)
  /-- A declaration has a doc comment if there is one among the comments in front of it. -/
  isSome_doc_iff : ∀ place ∈ file.declarationPlaces, ∀ declaration,
    place.declaration? file.text = some declaration →
      (declaration.doc.isSome = true ↔
        ∃ comment ∈ place.commentsBefore, Comment.isDocText (comment.text file.text) = true)
  /-- It is one of the doc comments of the file and the same as no other of them, and it is made of
  the doc comments in front of the declaration. -/
  exists_index : ∀ place ∈ file.declarationPlaces, ∀ declaration doc,
    place.declaration? file.text = some declaration → declaration.doc = some doc →
      ∃ index : Nat, file.docRuns[index]? = some (place.docNodes file.text) ∧
        ∀ other : Nat, file.docComments[other]? = some doc ↔ other = index
  /-- No two declarations share a doc comment. -/
  apart : file.declarationPlaces.Pairwise fun place later =>
    ∀ comment ∈ place.docNodes file.text, comment ∉ later.docNodes file.text
  /-- Every doc comment of the file is made of a run of its own. -/
  docComments_eq : file.docComments.map some = file.docRuns.map (DocComment.ofNodes? file.text)
  /-- The runs hold doc comments of the tree only. -/
  isDocNode_of_mem : ∀ run ∈ file.docRuns, ∀ comment ∈ run,
    comment ∈ file.root.preorder ∧ Comment.isDocNode file.text comment = true
  /-- Every doc comment of the tree stands in exactly one run. -/
  exists_run : ∀ comment ∈ file.root.preorder, Comment.isDocNode file.text comment = true →
    ∃ index : Nat, ∀ other : Nat,
      (∃ run, file.docRuns[other]? = some run ∧ comment ∈ run) ↔ other = index
  /-- No doc comment of the file is empty. -/
  start_lt_stop : ∀ doc ∈ file.docComments, doc.start < doc.stop
  /-- The doc comments of the file follow one another in the text. -/
  ordered : file.docComments.Pairwise fun doc later =>
    doc.start < later.start ∧ doc.stop ≤ later.start

namespace Code.SourceFile

variable {file : SourceFile}

/-- Every run makes one of the doc comments of the file. -/
theorem map_some_docComments (file : SourceFile) :
    file.docComments.map some = file.docRuns.map (DocComment.ofNodes? file.text) := by
  apply map_some_filterMap
  intro run hrun
  exact DocComment.isSome_ofNodes?_iff.2 (Comment.ne_nil_of_mem_runsBelow hrun)

theorem not_isComment_of_mem_declarationPlaces {place : Place}
    (h : place ∈ file.declarationPlaces) : ¬place.node.isComment = true := by
  obtain ⟨declaration, hmade⟩ := Option.isSome_iff_exists.1 (List.mem_filter.1 h).2
  simp [Declaration.isComment_of_declaration? hmade]

/-- The doc comments in front of a declaration are a run at its place. -/
theorem docNodes_mem_runAt {place : Place} (h : place ∈ file.declarationPlaces)
    (hne : place.docNodes file.text ≠ []) :
    place.docNodes file.text ∈ Comment.runAt file.text place := by
  rw [Comment.runAt, if_neg (not_isComment_of_mem_declarationPlaces h), Place.runBefore_earlier]
  exact Comment.mem_closeRun_self hne

/-- The doc comments in front of a declaration are a run of the file. -/
theorem docNodes_mem_docRuns (htree : file.root.IsTree) {place : Place}
    (h : place ∈ file.declarationPlaces) (hne : place.docNodes file.text ≠ []) :
    place.docNodes file.text ∈ file.docRuns := by
  apply (Comment.flatMap_runAt_places_sublist htree).subset
  exact List.mem_flatMap.2 ⟨place, (List.mem_filter.1 h).1, docNodes_mem_runAt h hne⟩

/-- The doc comment of the declaration made at a place is made of the run in front of it. -/
theorem filterMap_ofNodes?_runAt {place : Place} {declaration : Declaration} {doc : DocComment}
    (hmade : place.declaration? file.text = some declaration) (hdoc : declaration.doc = some doc) :
    (Comment.runAt file.text place).filterMap (DocComment.ofNodes? file.text) = [doc] := by
  have hcomment := Declaration.isComment_of_declaration? hmade
  rw [(Declaration.node_of_declaration? hmade).2, DocComment.before?] at hdoc
  rw [Comment.runAt, hcomment, if_neg Bool.false_ne_true]
  cases hrun : Comment.runBefore file.text place.earlier with
  | nil =>
    rw [hrun] at hdoc
    cases hdoc
  | cons comment run =>
    rw [hrun] at hdoc
    show List.filterMap _ [comment :: run] = [doc]
    rw [List.filterMap_cons_some hdoc, List.filterMap_nil]

/-- The doc comments of the declarations are doc comments of the file, in the order of the text. -/
theorem docs_sublist_docComments (htree : file.root.IsTree) :
    (file.declarations.filterMap (·.doc)).Sublist file.docComments := by
  have hruns (places : List Place) :
      ((places.filterMap (Place.declaration? file.text)).filterMap (·.doc)).Sublist
        ((places.flatMap (Comment.runAt file.text)).filterMap (DocComment.ofNodes? file.text)) := by
    induction places with
    | nil => exact List.Sublist.refl _
    | cons place places ih =>
      rw [List.flatMap_cons, List.filterMap_append]
      cases hmade : place.declaration? file.text with
      | none =>
        rw [List.filterMap_cons_none hmade]
        exact ih.trans (List.sublist_append_right _ _)
      | some declaration =>
        rw [List.filterMap_cons_some hmade]
        cases hdoc : declaration.doc with
        | none =>
          rw [List.filterMap_cons_none hdoc]
          exact ih.trans (List.sublist_append_right _ _)
        | some doc =>
          rw [List.filterMap_cons_some hdoc, filterMap_ofNodes?_runAt hmade hdoc,
            List.singleton_append]
          exact ih.cons_cons doc
  rw [declarations, Declaration.collect_eq_filterMap_places [] file.root List.any_nil]
  exact (hruns _).trans ((Comment.flatMap_runAt_places_sublist htree).filterMap _)

section Tree

variable (htree : file.root.IsTree) (hroot : file.root.isComment = false)
include htree hroot

theorem flatten_docRuns :
    file.docRuns.flatten = file.root.preorder.filter (Comment.isDocNode file.text) :=
  Comment.flatten_runsBelow_eq_filter_preorder htree hroot

theorem start_lt_stop_of_mem_docRuns {run : List Node} {comment : Node} (hrun : run ∈ file.docRuns)
    (hmem : comment ∈ run) : comment.start < comment.stop := by
  have hflatten : comment ∈ file.docRuns.flatten := List.mem_flatten.2 ⟨run, hrun, hmem⟩
  rw [flatten_docRuns htree hroot] at hflatten
  exact Comment.start_lt_stop_of_isDocNode (List.mem_filter.1 hflatten).2

/-- A comment stands in one run only. -/
theorem eq_of_mem_docRuns {i j : Nat} {run other : List Node} {comment : Node}
    (hi : file.docRuns[i]? = some run) (hj : file.docRuns[j]? = some other)
    (hrun : comment ∈ run) (hother : comment ∈ other) : i = j := by
  have hlt := start_lt_stop_of_mem_docRuns htree hroot (List.mem_of_getElem? hi) hrun
  have hpairwise := Comment.pairwise_runsBelow htree hroot file.text
  rw [List.pairwise_iff_getElem] at hpairwise
  obtain ⟨hile, rfl⟩ := List.getElem?_eq_some_iff.1 hi
  obtain ⟨hjle, rfl⟩ := List.getElem?_eq_some_iff.1 hj
  -- In two runs the comment would stand in front of itself.
  rcases Nat.lt_trichotomy i j with hij | hij | hij
  · have hle := hpairwise i j hile hjle hij comment hrun comment hother
    omega
  · exact hij
  · have hle := hpairwise j i hjle hile hij comment hother comment hrun
    omega

/-- The last comment of a run stops behind the start of the first. -/
theorem start_head_lt_stop_getLast {run : List Node} (hrun : run ∈ file.docRuns) (hne : run ≠ []) :
    (run.head hne).start < (run.getLast hne).stop := by
  have hwidth : ∀ comment ∈ run, comment.start < comment.stop := by
    intro comment hmem
    exact start_lt_stop_of_mem_docRuns htree hroot hrun hmem
  have hpairwise := Comment.pairwise_of_mem_runsBelow htree hroot hrun
  have hlast := List.getLast_mem hne
  have hinside := Node.inside_of_pairwise hne
    (fun comment hmem => Nat.le_of_lt (hwidth comment hmem)) hpairwise
  exact Nat.lt_of_le_of_lt (hinside _ hlast).1 (hwidth _ hlast)

theorem start_lt_stop_of_mem_docComments : ∀ doc ∈ file.docComments, doc.start < doc.stop := by
  intro doc hdoc
  obtain ⟨run, hrun, hmade⟩ := List.mem_filterMap.1 hdoc
  have hne : run ≠ [] := Comment.ne_nil_of_mem_runsBelow hrun
  obtain ⟨made, hsome, hstart, hstop⟩ := DocComment.exists_ofNodes? file.text hne
  obtain rfl : made = doc := Option.some.inj (hsome.symm.trans hmade)
  rw [hstart, hstop]
  exact start_head_lt_stop_getLast htree hroot hrun hne

theorem pairwise_docComments :
    file.docComments.Pairwise fun doc later =>
      doc.start < later.start ∧ doc.stop ≤ later.start := by
  rw [docComments, DocComment.allBelow, List.pairwise_filterMap]
  refine (Comment.pairwise_runsBelow htree hroot file.text).imp_of_mem ?_
  intro run later hrun hlater hapart doc hdoc laterDoc hlaterDoc
  have hne : run ≠ [] := Comment.ne_nil_of_mem_runsBelow hrun
  have hlaterNe : later ≠ [] := Comment.ne_nil_of_mem_runsBelow hlater
  obtain ⟨made, hsome, hstart, hstop⟩ := DocComment.exists_ofNodes? file.text hne
  obtain rfl : made = doc := Option.some.inj (hsome.symm.trans hdoc)
  obtain ⟨made', hsome', hstart', -⟩ := DocComment.exists_ofNodes? file.text hlaterNe
  obtain rfl : made' = laterDoc := Option.some.inj (hsome'.symm.trans hlaterDoc)
  have hwidth := start_head_lt_stop_getLast htree hroot hrun hne
  have hle := hapart _ (List.getLast_mem hne) _ (List.head_mem hlaterNe)
  omega

theorem nodup_docComments : file.docComments.Nodup := by
  refine (pairwise_docComments htree hroot).imp ?_
  rintro doc later ⟨hlt, -⟩ rfl
  exact Nat.lt_irrefl _ hlt

/-- The runs in front of different declarations have no comment in common. -/
theorem pairwise_docNodes :
    file.declarationPlaces.Pairwise fun place later =>
      ∀ comment ∈ place.docNodes file.text, comment ∉ later.docNodes file.text := by
  have hruns : file.docRuns.Pairwise fun run later => ∀ comment ∈ run, comment ∉ later := by
    refine (Comment.pairwise_runsBelow htree hroot file.text).imp_of_mem ?_
    intro run later hrun hlater hapart comment hmem hlaterMem
    have hlt := start_lt_stop_of_mem_docRuns htree hroot hrun hmem
    have hle := hapart comment hmem comment hlaterMem
    omega
  -- Each declaration has its run to itself in the list of all runs.
  have hplaces := hruns.sublist (Comment.flatMap_runAt_places_sublist htree)
  rw [List.pairwise_flatMap] at hplaces
  refine (hplaces.2.sublist List.filter_sublist).imp_of_mem ?_
  intro place later hplace hlater hapart comment hmem hlaterMem
  have hrun := docNodes_mem_runAt hplace (List.ne_nil_of_mem hmem)
  have hlaterRun := docNodes_mem_runAt hlater (List.ne_nil_of_mem hlaterMem)
  exact hapart _ hrun _ hlaterRun comment hmem hlaterMem

/-- On a tree that fits its text, the doc comments of the declarations are doc comments of the
file. -/
theorem docsAgree : DocsAgree file where
  declarations_eq := map_some_declarations file
  isSome_doc_iff := by
    intro place _ declaration hmade
    rw [(Declaration.node_of_declaration? hmade).2, DocComment.before?,
      DocComment.isSome_ofNodes?_iff, Place.runBefore_earlier, Place.docNodes, ne_eq,
      List.filter_eq_nil_iff]
    simp
  exists_index := by
    intro place hplace declaration doc hmade hdoc
    rw [(Declaration.node_of_declaration? hmade).2, DocComment.before?,
      Place.runBefore_earlier] at hdoc
    have hne : place.docNodes file.text ≠ [] := by
      rw [← DocComment.isSome_ofNodes?_iff, hdoc]
      rfl
    obtain ⟨index, hindex⟩ :=
      List.mem_iff_getElem?.1 (docNodes_mem_docRuns htree hplace hne)
    -- The entry of that run is what is made of its comments, like the declaration's own.
    have hentry : file.docComments[index]? = some doc := by
      have hsome : (file.docComments.map some)[index]? = some (some doc) := by
        rw [map_some_docComments, List.getElem?_map, hindex, Option.map_some, hdoc]
      rw [List.getElem?_map, Option.map_eq_some_iff] at hsome
      obtain ⟨found, hfound, hsame⟩ := hsome
      rw [hfound, hsame]
    refine ⟨index, hindex, fun other => ⟨?_, fun hother => hother ▸ hentry⟩⟩
    -- Doc comments that start at different places differ, so there is no other such entry.
    intro hother
    have hlt : other < file.docComments.length := (List.getElem?_eq_some_iff.1 hother).1
    exact (List.getElem?_inj hlt (nodup_docComments htree hroot)).1 (hother.trans hentry.symm)
  apart := pairwise_docNodes htree hroot
  docComments_eq := map_some_docComments file
  isDocNode_of_mem := by
    intro run hrun comment hmem
    have hflatten : comment ∈ file.docRuns.flatten := List.mem_flatten.2 ⟨run, hrun, hmem⟩
    rwa [flatten_docRuns htree hroot, List.mem_filter] at hflatten
  exists_run := by
    intro comment hmem hdoc
    have hflatten : comment ∈ file.docRuns.flatten := by
      rw [flatten_docRuns htree hroot]
      exact List.mem_filter.2 ⟨hmem, hdoc⟩
    obtain ⟨run, hrun, hin⟩ := List.mem_flatten.1 hflatten
    obtain ⟨index, hindex⟩ := List.mem_iff_getElem?.1 hrun
    refine ⟨index, fun other => ⟨?_, fun hother => ⟨run, hother ▸ hindex, hin⟩⟩⟩
    rintro ⟨otherRun, hother, hotherIn⟩
    exact eq_of_mem_docRuns htree hroot hother hindex hotherIn hin
  start_lt_stop := start_lt_stop_of_mem_docComments htree hroot
  ordered := pairwise_docComments htree hroot

end Tree

/-- A class after a loose doc comment, with a plain comment between the lines of its own. -/
def documentedClass : SourceFile where
  text := "/// a\n;/// b\n// x\n/** c */class C{}".toList
  root :=
    .mk ⟨"compilation_unit", true, false, 0, 35, none⟩
      [.mk ⟨"comment", true, false, 0, 5, none⟩ [], .mk ⟨";", false, false, 6, 7, none⟩ [],
        .mk ⟨"comment", true, false, 7, 12, none⟩ [],
        .mk ⟨"comment", true, false, 13, 17, none⟩ [],
        .mk ⟨"comment", true, false, 18, 26, none⟩ [],
        .mk ⟨"class_declaration", true, false, 26, 35, none⟩
          [.mk ⟨"class", false, false, 26, 31, none⟩ [],
            .mk ⟨"identifier", true, false, 32, 33, some "name"⟩ [],
            .mk ⟨"declaration_list", true, false, 33, 35, some "body"⟩ []]]
  hasErrors := false

/-- The class carries the second of the two doc comments of its file. -/
theorem docsAgree_documentedClass :
    documentedClass.root.IsTree ∧ documentedClass.root.isComment = false ∧
      DocsAgree documentedClass ∧ documentedClass.docComments.length = 2 ∧
      documentedClass.declarations.map (·.doc.map DocComment.markup) =
        [documentedClass.docComments[1]?.map DocComment.markup] :=
  have htree : documentedClass.root.IsTree := by decide
  have hroot : documentedClass.root.isComment = false := by decide
  ⟨htree, hroot, docsAgree htree hroot, by decide, by decide⟩

end Code.SourceFile
end DocAudit
